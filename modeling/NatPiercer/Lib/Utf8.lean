/-
# `Lib.Utf8` — text as bytes, and bytes as text

`str::as_bytes` writes the UTF-8 form of a text; `str::from_utf8` reads it
back and fails on anything malformed; `String::from_utf8_lossy` never
fails, and stands one U+FFFD for every maximal prefix of a malformed
sequence.  The two readers differ only in what they do with a malformed
chunk, so both are read off one list of chunks.

Two facts are wanted of them: reading back what was written gives the text
again (`chunks_asBytes`), and the lossy reader never shortens a byte string
(`length_le_asBytes_lossy`) — each chunk it replaces is at most as long as
the three bytes of U+FFFD.
-/
import NatPiercer.Lib.Text
import Mathlib.Tactic.IntervalCases

namespace NatPiercer.Utf8

/-- The bytes on the wire. -/
abbrev Bytes := List UInt8

/-- `str::as_bytes`. -/
def asBytes (s : Str) : Bytes := s.flatMap String.utf8EncodeChar

/-! ## One chunk: a character, or a malformed sequence -/

/-- A byte between two bounds. -/
def between (lo hi : Nat) (b : UInt8) : Bool := lo ≤ b.toNat && b.toNat ≤ hi

/-- A continuation byte. -/
def isCont (b : UInt8) : Bool := between 0x80 0xBF b

/-- The second byte of a three-byte form: no overlong form, no surrogate. -/
def isSecond₃ (b c : UInt8) : Bool :=
  if b.toNat = 0xE0 then between 0xA0 0xBF c
  else if b.toNat = 0xED then between 0x80 0x9F c
  else isCont c

/-- The second byte of a four-byte form: no overlong form, nothing past U+10FFFF. -/
def isSecond₄ (b c : UInt8) : Bool :=
  if b.toNat = 0xF0 then between 0x90 0xBF c
  else if b.toNat = 0xF4 then between 0x80 0x8F c
  else isCont c

/-- A chunk of two bytes, or a malformed one. -/
def take₂ (b : UInt8) : Bytes → Option Char × Bytes
  | c :: cs =>
      if isCont c then
        (some (Char.ofNat ((b.toNat - 0xC0) * 64 + (c.toNat - 0x80))), cs)
      else (none, c :: cs)
  | [] => (none, [])

/-- A chunk of three bytes, or a malformed one. -/
def take₃ (b : UInt8) : Bytes → Option Char × Bytes
  | [] => (none, [])
  | [c] => if isSecond₃ b c then (none, []) else (none, [c])
  | c :: d :: ds =>
      if isSecond₃ b c then
        if isCont d then
          (some (Char.ofNat ((b.toNat - 0xE0) * 4096 + (c.toNat - 0x80) * 64
            + (d.toNat - 0x80))), ds)
        else (none, d :: ds)
      else (none, c :: d :: ds)

/-- A chunk of four bytes, or a malformed one. -/
def take₄ (b : UInt8) : Bytes → Option Char × Bytes
  | [] => (none, [])
  | [c] => if isSecond₄ b c then (none, []) else (none, [c])
  | [c, d] =>
      if isSecond₄ b c then if isCont d then (none, []) else (none, [d])
      else (none, [c, d])
  | c :: d :: e :: es =>
      if isSecond₄ b c then
        if isCont d then
          if isCont e then
            (some (Char.ofNat ((b.toNat - 0xF0) * 262144 + (c.toNat - 0x80) * 4096
              + (d.toNat - 0x80) * 64 + (e.toNat - 0x80))), es)
          else (none, e :: es)
        else (none, d :: e :: es)
      else (none, c :: d :: e :: es)

/-- Reads one chunk whose first byte is `b`: the character, or `none` for a
malformed sequence, and the bytes after the chunk. -/
def takeChunk (b : UInt8) (bs : Bytes) : Option Char × Bytes :=
  if b.toNat < 0x80 then (some (Char.ofNat b.toNat), bs)
  else if between 0xC2 0xDF b then take₂ b bs
  else if between 0xE0 0xEF b then take₃ b bs
  else if between 0xF0 0xF4 b then take₄ b bs
  else (none, bs)

/-- The chunks of a byte string, with a bound on their number. -/
def chunksAux : Nat → Bytes → List (Option Char)
  | 0, _ => []
  | _ + 1, [] => []
  | n + 1, b :: bs => (takeChunk b bs).1 :: chunksAux n (takeChunk b bs).2

/-- The chunks of a byte string. -/
def chunks (bs : Bytes) : List (Option Char) := chunksAux bs.length bs

/-- `str::from_utf8`. -/
def fromUtf8 (bs : Bytes) : Option Str := (chunks bs).mapM id

/-- U+FFFD REPLACEMENT CHARACTER. -/
def replacement : Char := '\uFFFD'

/-- `String::from_utf8_lossy`. -/
def fromUtf8Lossy (bs : Bytes) : Str := (chunks bs).map (·.getD replacement)

/-! ## What a chunk takes -/

theorem between_iff {lo hi : Nat} {b : UInt8} :
    between lo hi b = true ↔ lo ≤ b.toNat ∧ b.toNat ≤ hi := by
  simp [between]

theorem isCont_iff {b : UInt8} : isCont b = true ↔ 0x80 ≤ b.toNat ∧ b.toNat ≤ 0xBF :=
  between_iff

/-- The length of a character's UTF-8 form, by its scalar value. -/
theorem length_encode_ofNat {n : Nat} (hn : n.isValidChar) :
    (String.utf8EncodeChar (Char.ofNat n)).length =
      if n ≤ 0x7F then 1 else if n ≤ 0x7FF then 2 else if n ≤ 0xFFFF then 3 else 4 := by
  have hval : (Char.ofNat n).val.toNat = n := by
    rw [Char.ofNat, dif_pos hn]
    rfl
  simp only [String.utf8EncodeChar, hval]
  split_ifs <;> rfl

/-- What a second byte of a three-byte form may be, as one pair of bounds. -/
theorem isSecond₃_bounds {b c : UInt8} (h : isSecond₃ b c = true) :
    0x80 ≤ c.toNat ∧ c.toNat ≤ 0xBF ∧ (b.toNat = 0xE0 → 0xA0 ≤ c.toNat) ∧
      (b.toNat = 0xED → c.toNat ≤ 0x9F) := by
  unfold isSecond₃ at h
  split_ifs at h with h₁ h₂
  · have := between_iff.mp h
    omega
  · have := between_iff.mp h
    omega
  · have := isCont_iff.mp h
    omega

theorem isSecond₄_bounds {b c : UInt8} (h : isSecond₄ b c = true) :
    0x80 ≤ c.toNat ∧ c.toNat ≤ 0xBF ∧ (b.toNat = 0xF0 → 0x90 ≤ c.toNat) ∧
      (b.toNat = 0xF4 → c.toNat ≤ 0x8F) := by
  unfold isSecond₄ at h
  split_ifs at h with h₁ h₂
  · have := between_iff.mp h
    omega
  · have := between_iff.mp h
    omega
  · have := isCont_iff.mp h
    omega

/-- What holds of a chunk read off `k` bytes: a character takes as many bytes
as its UTF-8 form, a malformed sequence at most as many as U+FFFD. -/
def ChunkLength (k : Nat) : Option Char × Bytes → Prop
  | (some c, rest) => (String.utf8EncodeChar c).length + rest.length = k
  | (none, rest) => rest.length < k ∧ k ≤ 3 + rest.length

theorem chunkLength_take₂ {b : UInt8} (h₁ : 0xC2 ≤ b.toNat) (h₂ : b.toNat ≤ 0xDF) :
    ∀ bs, ChunkLength (bs.length + 1) (take₂ b bs)
  | [] => by simp [take₂, ChunkLength]
  | c :: cs => by
      simp only [take₂]
      split_ifs with hc
      · have hc := isCont_iff.mp hc
        rw [ChunkLength, length_encode_ofNat (Or.inl (by omega)), if_neg (by omega),
          if_pos (by omega), List.length_cons]
        omega
      · simp only [ChunkLength, List.length_cons]
        omega

theorem chunkLength_take₃ {b : UInt8} (h₁ : 0xE0 ≤ b.toNat) (h₂ : b.toNat ≤ 0xEF) :
    ∀ bs, ChunkLength (bs.length + 1) (take₃ b bs)
  | [] => by simp [take₃, ChunkLength]
  | [c] => by
      simp only [take₃]
      split_ifs <;> simp [ChunkLength]
  | c :: d :: ds => by
      simp only [take₃]
      split_ifs with hc hd
      · have hc := isSecond₃_bounds hc
        have hd := isCont_iff.mp hd
        have hvalid : Nat.isValidChar ((b.toNat - 0xE0) * 4096 + (c.toNat - 0x80) * 64
            + (d.toNat - 0x80)) := by
          unfold Nat.isValidChar
          omega
        rw [ChunkLength, length_encode_ofNat hvalid, if_neg (by omega), if_neg (by omega),
          if_pos (by omega), List.length_cons, List.length_cons]
        omega
      all_goals
        simp only [ChunkLength, List.length_cons]
        omega

theorem chunkLength_take₄ {b : UInt8} (h₁ : 0xF0 ≤ b.toNat) (h₂ : b.toNat ≤ 0xF4) :
    ∀ bs, ChunkLength (bs.length + 1) (take₄ b bs)
  | [] => by simp [take₄, ChunkLength]
  | [c] => by
      simp only [take₄]
      split_ifs <;> simp [ChunkLength]
  | [c, d] => by
      simp only [take₄]
      split_ifs <;> simp [ChunkLength]
  | c :: d :: e :: es => by
      simp only [take₄]
      split_ifs with hc hd he
      · have hc := isSecond₄_bounds hc
        have hd := isCont_iff.mp hd
        have he := isCont_iff.mp he
        have hvalid : Nat.isValidChar ((b.toNat - 0xF0) * 262144 + (c.toNat - 0x80) * 4096
            + (d.toNat - 0x80) * 64 + (e.toNat - 0x80)) := by
          unfold Nat.isValidChar
          omega
        rw [ChunkLength, length_encode_ofNat hvalid, if_neg (by omega), if_neg (by omega),
          if_neg (by omega), List.length_cons, List.length_cons, List.length_cons]
        omega
      all_goals
        simp only [ChunkLength, List.length_cons]
        omega

theorem chunkLength_takeChunk (b : UInt8) (bs : Bytes) :
    ChunkLength (bs.length + 1) (takeChunk b bs) := by
  unfold takeChunk
  split_ifs with h₁ h₂ h₃ h₄
  · rw [ChunkLength, length_encode_ofNat (Or.inl (by omega)), if_pos (by omega)]
    omega
  · have h := between_iff.mp h₂
    exact chunkLength_take₂ h.1 h.2 bs
  · have h := between_iff.mp h₃
    exact chunkLength_take₃ h.1 h.2 bs
  · have h := between_iff.mp h₄
    exact chunkLength_take₄ h.1 h.2 bs
  · simp only [ChunkLength]
    omega

/-- Every chunk takes at least its first byte. -/
theorem length_takeChunk_le (b : UInt8) (bs : Bytes) :
    (takeChunk b bs).2.length ≤ bs.length := by
  have h := chunkLength_takeChunk b bs
  match hr : takeChunk b bs with
  | (none, rest) =>
      rw [hr] at h
      exact Nat.lt_succ_iff.mp h.1
  | (some c, rest) =>
      rw [hr] at h
      have hpos : 0 < (String.utf8EncodeChar c).length := by
        rw [String.length_utf8EncodeChar]
        exact Char.utf8Size_pos c
      simp only [ChunkLength] at h
      simp only
      omega

/-- A larger bound reads the same chunks. -/
theorem chunksAux_eq : ∀ {n : Nat} {bs : Bytes}, bs.length ≤ n → chunksAux n bs = chunks bs
  | 0, [], _ => rfl
  | _ + 1, [], _ => rfl
  | n + 1, b :: bs, h => by
      have h : bs.length ≤ n := Nat.le_of_succ_le_succ h
      have hrest := length_takeChunk_le b bs
      rw [chunks, List.length_cons, chunksAux, chunksAux, chunksAux_eq hrest,
        chunksAux_eq (hrest.trans h)]

theorem chunks_cons (b : UInt8) (bs : Bytes) :
    chunks (b :: bs) = (takeChunk b bs).1 :: chunks (takeChunk b bs).2 := by
  rw [chunks, List.length_cons, chunksAux, chunksAux_eq (length_takeChunk_le b bs)]

/-! ## Reading back what was written -/

/-- A byte below the bound is itself. -/
theorem toNat_ofNat_byte {n : Nat} (h : n < 256) : (UInt8.ofNat n).toNat = n := by
  rw [UInt8.toNat_ofNat', Nat.mod_eq_of_lt h]

/-- The bytes of a character are read as one chunk, whatever follows them. -/
theorem takeChunk_encode (c : Char) : ∃ b bs, String.utf8EncodeChar c = b :: bs ∧
    ∀ rest, takeChunk b (bs ++ rest) = (some c, rest) := by
  have hvalid : c.val.toNat.isValidChar := c.valid
  have hc : c = Char.ofNat c.val.toNat := (Char.ofNat_toNat c).symm
  generalize hv : c.val.toNat = v at hvalid hc
  have hrange : v < 0xD800 ∨ 0xDFFF < v ∧ v < 0x110000 := hvalid
  simp only [String.utf8EncodeChar, hv]
  subst hc
  split_ifs with h₁ h₂ h₃
  · refine ⟨_, _, rfl, fun rest => ?_⟩
    have hb := toNat_ofNat_byte (n := v) (by omega)
    rw [takeChunk, if_pos (by omega), hb]
    rfl
  · refine ⟨_, _, rfl, fun rest => ?_⟩
    have hb := toNat_ofNat_byte (n := v / 64 % 0x20 + 0xC0) (by omega)
    have hd := toNat_ofNat_byte (n := v % 0x40 + 0x80) (by omega)
    rw [takeChunk, if_neg (by omega), if_pos (between_iff.mpr (by omega)),
      List.singleton_append, take₂, if_pos (isCont_iff.mpr (by omega)), hb, hd]
    refine congrArg (fun n => (some (Char.ofNat n), rest)) ?_
    omega
  · refine ⟨_, _, rfl, fun rest => ?_⟩
    have hb := toNat_ofNat_byte (n := v / 4096 % 0x10 + 0xE0) (by omega)
    have hd := toNat_ofNat_byte (n := v / 64 % 0x40 + 0x80) (by omega)
    have he := toNat_ofNat_byte (n := v % 0x40 + 0x80) (by omega)
    have hsecond : isSecond₃ (UInt8.ofNat (v / 4096 % 0x10 + 0xE0))
        (UInt8.ofNat (v / 64 % 0x40 + 0x80)) = true := by
      unfold isSecond₃
      split_ifs
      all_goals
        simp only [isCont, between_iff]
        omega
    rw [takeChunk, if_neg (by omega), if_neg (mt between_iff.mp (by omega)),
      if_pos (between_iff.mpr (by omega)), List.cons_append, List.singleton_append, take₃,
      if_pos hsecond, if_pos (isCont_iff.mpr (by omega)), hb, hd, he]
    refine congrArg (fun n => (some (Char.ofNat n), rest)) ?_
    omega
  · refine ⟨_, _, rfl, fun rest => ?_⟩
    have hb := toNat_ofNat_byte (n := v / 262144 % 0x08 + 0xF0) (by omega)
    have hd := toNat_ofNat_byte (n := v / 4096 % 0x40 + 0x80) (by omega)
    have he := toNat_ofNat_byte (n := v / 64 % 0x40 + 0x80) (by omega)
    have hf := toNat_ofNat_byte (n := v % 0x40 + 0x80) (by omega)
    have hsecond : isSecond₄ (UInt8.ofNat (v / 262144 % 0x08 + 0xF0))
        (UInt8.ofNat (v / 4096 % 0x40 + 0x80)) = true := by
      unfold isSecond₄
      split_ifs
      all_goals
        simp only [isCont, between_iff]
        omega
    rw [takeChunk, if_neg (by omega), if_neg (mt between_iff.mp (by omega)),
      if_neg (mt between_iff.mp (by omega)), if_pos (between_iff.mpr (by omega)),
      List.cons_append, List.cons_append, List.singleton_append, take₄,
      if_pos hsecond, if_pos (isCont_iff.mpr (by omega)), if_pos (isCont_iff.mpr (by omega)),
      hb, hd, he, hf]
    refine congrArg (fun n => (some (Char.ofNat n), rest)) ?_
    omega

@[simp] theorem asBytes_nil : asBytes [] = [] := rfl

theorem asBytes_flatMap {α : Type} (xs : List α) (f : α → Str) :
    xs.flatMap (fun x => asBytes (f x)) = asBytes (xs.flatMap f) := by
  simp only [asBytes, List.flatMap_assoc]

theorem chunks_asBytes_append (s : Str) (bs : Bytes) :
    chunks (asBytes s ++ bs) = s.map some ++ chunks bs := by
  induction s with
  | nil => rfl
  | cons c s ih =>
      obtain ⟨b, tail, henc, htake⟩ := takeChunk_encode c
      have happ : asBytes (c :: s) ++ bs = b :: (tail ++ (asBytes s ++ bs)) := by
        simp [asBytes, henc]
      rw [happ, chunks_cons, htake, ih]
      rfl

theorem chunks_asBytes (s : Str) : chunks (asBytes s) = s.map some := by
  have h := chunks_asBytes_append s []
  rwa [List.append_nil, show chunks [] = [] from rfl, List.append_nil] at h

@[simp] theorem fromUtf8_asBytes (s : Str) : fromUtf8 (asBytes s) = some s := by
  rw [fromUtf8, chunks_asBytes]
  induction s with
  | nil => rfl
  | cons c s ih => simp [ih]

@[simp] theorem fromUtf8Lossy_asBytes (s : Str) : fromUtf8Lossy (asBytes s) = s := by
  rw [fromUtf8Lossy, chunks_asBytes, List.map_map]
  exact List.map_id s

/-- An ASCII byte in front is the first character. -/
theorem head?_of_asBytes {s : Str} {b : UInt8} {bs : Bytes} (h : asBytes s = b :: bs)
    (hb : b.toNat < 0x80) : s.head? = some (Char.ofNat b.toNat) := by
  have hchunks := chunks_asBytes s
  rw [h, chunks_cons, takeChunk, if_pos hb] at hchunks
  cases s with
  | nil => exact absurd hchunks (List.cons_ne_nil _ _)
  | cons c s => exact (List.cons.inj hchunks).1.symm

theorem asBytes_injective {s t : Str} (h : asBytes s = asBytes t) : s = t := by
  rw [← fromUtf8Lossy_asBytes s, h, fromUtf8Lossy_asBytes]

/-! ## Lengths -/

/-- `str::len`: the bytes, not the characters. -/
def byteLen (s : Str) : Nat := (asBytes s).length

@[simp] theorem byteLen_nil : byteLen [] = 0 := rfl

@[simp] theorem byteLen_append (s t : Str) : byteLen (s ++ t) = byteLen s + byteLen t := by
  unfold byteLen asBytes
  rw [List.flatMap_append, List.length_append]

@[simp] theorem byteLen_cons (c : Char) (s : Str) : byteLen (c :: s) = c.utf8Size + byteLen s := by
  unfold byteLen asBytes
  rw [List.flatMap_cons, List.length_append, String.length_utf8EncodeChar]

theorem byteLen_le (s : Str) : byteLen s ≤ 4 * s.length := by
  induction s with
  | nil => exact Nat.le_refl 0
  | cons c s ih =>
      have hc := Char.utf8Size_le_four c
      rw [byteLen_cons, List.length_cons]
      omega

/-- The lossy reader never shortens: what it reads takes at least as many
bytes as it was given. -/
theorem length_le_asBytes_lossy (bs : Bytes) :
    bs.length ≤ (asBytes (fromUtf8Lossy bs)).length := by
  induction hn : bs.length using Nat.strong_induction_on generalizing bs with
  | _ n ih =>
      subst hn
      match bs with
      | [] => exact Nat.zero_le _
      | b :: bs =>
          have hle := length_takeChunk_le b bs
          have ih := ih _ (Nat.lt_succ_of_le hle) (takeChunk b bs).2 rfl
          have hchunk := chunkLength_takeChunk b bs
          rw [fromUtf8Lossy, chunks_cons, List.map_cons, asBytes, List.flatMap_cons,
            List.length_append]
          rw [fromUtf8Lossy, asBytes] at ih
          rcases hr : takeChunk b bs with ⟨_ | c, rest⟩
          · rw [hr] at ih hchunk
            have hrep : (String.utf8EncodeChar replacement).length = 3 := by decide
            simp only [ChunkLength] at hchunk
            simp only [Option.getD_none, hrep, List.length_cons]
            simp only at ih
            omega
          · rw [hr] at ih hchunk
            simp only [ChunkLength] at hchunk
            simp only [Option.getD_some, List.length_cons]
            simp only at ih
            omega

/-- The strict reader accepts only the UTF-8 form of what it reads, which
has the length of the bytes it was given. -/
theorem length_asBytes_of_fromUtf8 {bs : Bytes} {s : Str} (h : fromUtf8 bs = some s) :
    (asBytes s).length = bs.length := by
  induction hn : bs.length using Nat.strong_induction_on generalizing bs s with
  | _ n ih =>
      subst hn
      match bs with
      | [] =>
          have hs : s = [] := (Option.some.inj h).symm
          subst hs
          rfl
      | b :: bs =>
          have hle := length_takeChunk_le b bs
          have hchunk := chunkLength_takeChunk b bs
          rw [fromUtf8, chunks_cons, List.mapM_cons] at h
          rcases hr : takeChunk b bs with ⟨_ | c, rest⟩
          · rw [hr] at h
            exact absurd h (by simp)
          · rw [hr] at h hle hchunk
            obtain ⟨d, hd, h⟩ := Option.bind_eq_some_iff.mp h
            obtain ⟨t, ht, h⟩ := Option.bind_eq_some_iff.mp h
            obtain rfl : c = d := Option.some.inj hd
            obtain rfl : c :: t = s := Option.some.inj h
            have ih := ih _ (Nat.lt_succ_of_le hle) ht rfl
            simp only [ChunkLength] at hchunk
            rw [asBytes] at ih
            rw [asBytes, List.flatMap_cons, List.length_append, ih, List.length_cons]
            exact hchunk

/-- A text read strictly from a shorter byte string is not the text read
lossily from a longer one. -/
theorem fromUtf8Lossy_ne_of_length_lt {short long : Bytes} {s : Str}
    (h : fromUtf8 short = some s) (hlt : short.length < long.length) :
    fromUtf8Lossy long ≠ s := by
  intro heq
  have h₁ := length_le_asBytes_lossy long
  rw [heq, length_asBytes_of_fromUtf8 h] at h₁
  omega

end NatPiercer.Utf8
