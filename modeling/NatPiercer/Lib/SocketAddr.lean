/-
# `Lib.SocketAddr` — socket addresses and their text form

`std::net::SocketAddr` with `Display` and `FromStr`, after the documented
behaviour of the standard library: dotted quads without leading zeros,
IPv6 groups in lower-case hexadecimal with the longest run of zeros
compressed, ports in decimal.

Only one fact is used elsewhere: an IPv4 address is written as one token
and parses back to itself (`fromStr_toText_v4`).
-/
import Mathlib.Data.Nat.Digits.Defs
import NatPiercer.Lib.Text

namespace NatPiercer.Net

open Text

/-- `Ipv4Addr`: four octets. -/
structure Ipv4Addr where
  a : UInt8
  b : UInt8
  c : UInt8
  d : UInt8
deriving DecidableEq

/-- `Ipv6Addr`: eight groups. -/
structure Ipv6Addr where
  segments : List UInt16
  eight : segments.length = 8
deriving DecidableEq

/-- `SocketAddr`. -/
inductive SocketAddr
  | v4 (ip : Ipv4Addr) (port : UInt16)
  | v6 (ip : Ipv6Addr) (port : UInt16) (flowinfo scopeId : UInt32)
deriving DecidableEq

/-- `IpAddr`. -/
inductive IpAddr
  | v4 (ip : Ipv4Addr)
  | v6 (ip : Ipv6Addr)
deriving DecidableEq

/-- `SocketAddr::ip`. -/
def SocketAddr.ip : SocketAddr → IpAddr
  | .v4 ip _ => .v4 ip
  | .v6 ip _ _ _ => .v6 ip

/-- `SocketAddr::port`. -/
def SocketAddr.port : SocketAddr → UInt16
  | .v4 _ port | .v6 _ port _ _ => port

/-- `SocketAddr::new`. -/
def SocketAddr.new (port : UInt16) : IpAddr → SocketAddr
  | .v4 ip => .v4 ip port
  | .v6 ip => .v6 ip port 0 0

/-! ## `Display` -/

/-- A number in decimal. -/
def decimal (n : Nat) : Str := Nat.toDigits 10 n

/-- A number in lower-case hexadecimal. -/
def hex (n : Nat) : Str := Nat.toDigits 16 n

def Ipv4Addr.toText (ip : Ipv4Addr) : Str :=
  decimal ip.a.toNat ++ '.' :: (decimal ip.b.toNat ++ '.' :: (decimal ip.c.toNat ++
    '.' :: decimal ip.d.toNat))

/-- Groups separated by colons. -/
def fmtGroups : List UInt16 → Str
  | [] => []
  | g :: gs => hex g.toNat ++ gs.flatMap fun g => ':' :: hex g.toNat

/-- The first longest run of zero groups, as its start and length: `current`
is the run that ends just before group `i`. -/
def longestZeros : Nat → Nat × Nat → Nat × Nat → List UInt16 → Nat × Nat
  | _, longest, _, [] => longest
  | i, longest, current, g :: gs =>
      if g = 0 then
        let current := if current.2 = 0 then (i, 1) else (current.1, current.2 + 1)
        longestZeros (i + 1) (if longest.2 < current.2 then current else longest) current gs
      else longestZeros (i + 1) longest (0, 0) gs

def Ipv6Addr.toText (ip : Ipv6Addr) : Str :=
  match ip.segments with
  | [0, 0, 0, 0, 0, 0xFFFF, ab, cd] =>
      -- an IPv4-mapped address
      "::ffff:".toList ++ Ipv4Addr.toText
        ⟨(ab >>> 8).toUInt8, ab.toUInt8, (cd >>> 8).toUInt8, cd.toUInt8⟩
  | segments =>
      let zeroes := longestZeros 0 (0, 0) (0, 0) segments
      if 1 < zeroes.2 then
        fmtGroups (segments.take zeroes.1) ++ ':' :: ':' ::
          fmtGroups (segments.drop (zeroes.1 + zeroes.2))
      else fmtGroups segments

def SocketAddr.toText : SocketAddr → Str
  | .v4 ip port => ip.toText ++ ':' :: decimal port.toNat
  | .v6 ip port _ scopeId =>
      let scope := if scopeId = 0 then [] else '%' :: decimal scopeId.toNat
      '[' :: (ip.toText ++ scope ++ ']' :: ':' :: decimal port.toNat)

/-! ## `FromStr` -/

/-- `char::to_digit`. -/
def toDigit (radix : Nat) (c : Char) : Option Nat :=
  let n := c.toNat
  let v := if 48 ≤ n ∧ n ≤ 57 then n - 48
    else if 97 ≤ n ∧ n ≤ 122 then n - 87
    else if 65 ≤ n ∧ n ≤ 90 then n - 55
    else radix
  if v < radix then some v else none

/-- The value of a row of digits. -/
def digitsValue (radix : Nat) (ds : Str) : Nat :=
  ds.foldl (fun n c => n * radix + (toDigit radix c).getD 0) 0

/-- `read_number`: the digits at the front, no more than `maxDigits` of them,
without a leading zero unless allowed, and no larger than `bound`. -/
def readNumber (radix : Nat) (maxDigits : Option Nat) (allowZeroPrefix : Bool) (bound : Nat)
    (s : Str) : Option (Nat × Str) :=
  let ds := s.takeWhile fun c => (toDigit radix c).isSome
  if ds = [] then none
  else if maxDigits.any (· < ds.length) then none
  else if !allowZeroPrefix && ds.head? == some '0' && 1 < ds.length then none
  else if bound < digitsValue radix ds then none
  else some (digitsValue radix ds, s.dropWhile fun c => (toDigit radix c).isSome)

/-- `str::parse` for an unsigned integer no larger than `bound`: digits, and
perhaps a plus before them. -/
def parseUnsigned (bound : Nat) (s : Str) : Option Nat :=
  let ds := if 1 < s.length ∧ s.head? = some '+' then s.tail else s
  if ds = [] ∨ ds.any fun c => (toDigit 10 c).isNone then none
  else if bound < digitsValue 10 ds then none
  else some (digitsValue 10 ds)

/-- `read_given_char`. -/
def readGivenChar (c : Char) : Str → Option Str
  | [] => none
  | d :: s => if d = c then some s else none

/-- `read_ipv4_addr`. -/
def readIpv4Addr (s : Str) : Option (Ipv4Addr × Str) := do
  let (a, s) ← readNumber 10 (some 3) false 255 s
  let (b, s) ← readNumber 10 (some 3) false 255 (← readGivenChar '.' s)
  let (c, s) ← readNumber 10 (some 3) false 255 (← readGivenChar '.' s)
  let (d, s) ← readNumber 10 (some 3) false 255 (← readGivenChar '.' s)
  return (⟨.ofNat a, .ofNat b, .ofNat c, .ofNat d⟩, s)

/-- `read_port`. -/
def readPort (s : Str) : Option (UInt16 × Str) := do
  let (port, s) ← readNumber 10 none true 65535 (← readGivenChar ':' s)
  return (.ofNat port, s)

/-- `read_socket_addr_v4`. -/
def readSocketAddrV4 (s : Str) : Option (SocketAddr × Str) := do
  let (ip, s) ← readIpv4Addr s
  let (port, s) ← readPort s
  return (.v4 ip port, s)

/-- `read_groups`: at most `limit` groups, of which this reads the last
`n` from the `i`-th on; whether a trailing IPv4 address was read; the rest. -/
def readGroups (limit : Nat) : Nat → Nat → Str → List UInt16 × Bool × Str
  | 0, _, s => ([], false, s)
  | n + 1, i, s =>
      let sep := if i = 0 then some s else readGivenChar ':' s
      match if i + 1 < limit then sep.bind readIpv4Addr else none with
      | some (ip, s) =>
          ([ip.a.toUInt16 <<< 8 ||| ip.b.toUInt16, ip.c.toUInt16 <<< 8 ||| ip.d.toUInt16],
            true, s)
      | none =>
          match sep.bind (readNumber 16 (some 4) true 65535) with
          | some (g, s) =>
              let (gs, v4, s) := readGroups limit n (i + 1) s
              (.ofNat g :: gs, v4, s)
          | none => ([], false, s)

/-- `read_ipv6_addr`. -/
def readIpv6Addr (s : Str) : Option (Ipv6Addr × Str) := do
  let (head, headV4, s) := readGroups 8 8 0 s
  if h : head.length = 8 then return (⟨head, h⟩, s)
  if headV4 then none
  let s ← readGivenChar ':' s
  let s ← readGivenChar ':' s
  let limit := 8 - (head.length + 1)
  let (tail, _, s) := readGroups limit limit 0 s
  let groups := head ++ List.replicate (8 - head.length - tail.length) 0 ++ tail
  if h : groups.length = 8 then return (⟨groups, h⟩, s)
  none

/-- `read_scope_id`. -/
def readScopeId (s : Str) : Option (UInt32 × Str) := do
  let (scope, s) ← readNumber 10 none true 4294967295 (← readGivenChar '%' s)
  return (.ofNat scope, s)

/-- `read_socket_addr_v6`. -/
def readSocketAddrV6 (s : Str) : Option (SocketAddr × Str) := do
  let s ← readGivenChar '[' s
  let (ip, s) ← readIpv6Addr s
  let (scope, s) := (readScopeId s).getD (0, s)
  let s ← readGivenChar ']' s
  let (port, s) ← readPort s
  return (.v6 ip port 0 scope, s)

/-- `SocketAddr::from_str`: all of the text has to be read. -/
def SocketAddr.fromStr (s : Str) : Option SocketAddr :=
  match (readSocketAddrV4 s).orElse fun _ => readSocketAddrV6 s with
  | some (addr, []) => some addr
  | _ => none

/-! ## Text of addresses is a token -/

theorem solid_digitChar {n : Nat} (h : n < 16) : isWhitespace n.digitChar = false := by
  have key : ∀ n : Fin 16, isWhitespace n.val.digitChar = false := by decide
  exact key ⟨n, h⟩

/-- No digit is whitespace, in any base up to sixteen. -/
theorem solid_toDigits {b : Nat} (hb : 1 < b) (hb' : b ≤ 16) (n : Nat) :
    ∀ c ∈ Nat.toDigits b n, isWhitespace c = false := by
  induction n using Nat.strong_induction_on with
  | _ n ih =>
      intro c hc
      rw [Nat.toDigits_eq_if hb] at hc
      split_ifs at hc with hn
      · rw [List.mem_singleton.mp hc]
        exact solid_digitChar (by omega)
      · rcases List.mem_append.mp hc with hc | hc
        · exact ih _ (Nat.div_lt_self (by omega) hb) c hc
        · rw [List.mem_singleton.mp hc]
          exact solid_digitChar ((Nat.mod_lt n (by omega)).trans_le hb')

/-- A word none of whose characters is whitespace. -/
abbrev Solid (s : Str) : Prop := ∀ c ∈ s, isWhitespace c = false

theorem Solid.append {s t : Str} (hs : Solid s) (ht : Solid t) : Solid (s ++ t) := fun c hc =>
  (List.mem_append.mp hc).elim (hs c) (ht c)

theorem Solid.cons {c : Char} {s : Str} (hc : isWhitespace c = false) (hs : Solid s) :
    Solid (c :: s) := fun d hd =>
  (List.mem_cons.mp hd).elim (fun h => h ▸ hc) (hs d)

theorem solid_decimal (n : Nat) : Solid (decimal n) :=
  solid_toDigits (by decide) (by decide) n

theorem solid_hex (n : Nat) : Solid (hex n) :=
  solid_toDigits (by decide) (by decide) n

theorem Ipv4Addr.solid_toText (ip : Ipv4Addr) : Solid ip.toText :=
  (solid_decimal _).append <| .cons (by decide) <| (solid_decimal _).append <|
    .cons (by decide) <| (solid_decimal _).append <| .cons (by decide) (solid_decimal _)

theorem solid_fmtGroups (gs : List UInt16) : Solid (fmtGroups gs) := by
  cases gs with
  | nil => exact fun _ h => absurd h List.not_mem_nil
  | cons g gs =>
      refine (solid_hex _).append fun c hc => ?_
      obtain ⟨g', -, hg'⟩ := List.mem_flatMap.mp hc
      exact Solid.cons (by decide) (solid_hex _) c hg'

theorem Ipv6Addr.solid_toText (ip : Ipv6Addr) : Solid ip.toText := by
  unfold Ipv6Addr.toText
  split
  · exact Solid.append (isWord_iff.mp (by decide)).2 (Ipv4Addr.solid_toText _)
  · dsimp only
    split_ifs
    · exact (solid_fmtGroups _).append
        (.cons (by decide) (.cons (by decide) (solid_fmtGroups _)))
    · exact solid_fmtGroups _

theorem SocketAddr.solid_toText : ∀ addr : SocketAddr, Solid addr.toText
  | .v4 ip port => ip.solid_toText.append (.cons (by decide) (solid_decimal _))
  | .v6 ip port _ scopeId => by
      refine .cons (by decide) ((ip.solid_toText.append ?_).append
        (.cons (by decide) (.cons (by decide) (solid_decimal _))))
      split_ifs
      · exact fun _ h => absurd h List.not_mem_nil
      · exact .cons (by decide) (solid_decimal _)

theorem length_decimal_le {n k : Nat} (hn : n < 10 ^ k) (hk : k ≠ 0) :
    (decimal n).length ≤ k :=
  Nat.toDigits_length 10 n k (Nat.pos_of_ne_zero hk) hn

theorem Ipv4Addr.length_toText_le (ip : Ipv4Addr) : ip.toText.length ≤ 15 := by
  have hbyte : ∀ b : UInt8, (decimal b.toNat).length ≤ 3 := fun b =>
    length_decimal_le (lt_of_lt_of_le b.toNat_lt (by decide)) (by decide)
  have ha := hbyte ip.a
  have hb := hbyte ip.b
  have hc := hbyte ip.c
  have hd := hbyte ip.d
  simp only [Ipv4Addr.toText, List.length_append, List.length_cons]
  omega

theorem length_fmtGroups_le (gs : List UInt16) : (fmtGroups gs).length ≤ 5 * gs.length := by
  have hgroup : ∀ g : UInt16, (hex g.toNat).length ≤ 4 := fun g =>
    Nat.toDigits_length 16 g.toNat 4 (by decide) (lt_of_lt_of_le g.toNat_lt (by decide))
  have hrest : ∀ gs : List UInt16,
      (gs.flatMap fun g => ':' :: hex g.toNat).length ≤ 5 * gs.length := by
    intro gs
    induction gs with
    | nil => exact Nat.le_refl 0
    | cons g gs ih =>
        have hg := hgroup g
        rw [List.flatMap_cons, List.length_append, List.length_cons, List.length_cons]
        omega
  cases gs with
  | nil => exact Nat.le_refl 0
  | cons g gs =>
      have hg := hgroup g
      have hgs := hrest gs
      rw [fmtGroups, List.length_append, List.length_cons]
      omega

theorem Ipv6Addr.length_toText_le (ip : Ipv6Addr) : ip.toText.length ≤ 42 := by
  have height := ip.eight
  unfold Ipv6Addr.toText
  split
  · have hmapped := Ipv4Addr.length_toText_le
    rename_i ab cd _
    have h := hmapped ⟨(ab >>> 8).toUInt8, ab.toUInt8, (cd >>> 8).toUInt8, cd.toUInt8⟩
    rw [List.length_append, show "::ffff:".toList.length = 7 from rfl]
    omega
  · dsimp only
    generalize longestZeros 0 (0, 0) (0, 0) ip.segments = zeroes
    split_ifs with hlong
    · have hfront := length_fmtGroups_le (ip.segments.take zeroes.1)
      have hback := length_fmtGroups_le (ip.segments.drop (zeroes.1 + zeroes.2))
      rw [List.length_take] at hfront
      rw [List.length_drop] at hback
      rw [List.length_append, List.length_cons, List.length_cons]
      omega
    · have h := length_fmtGroups_le ip.segments
      omega

/-- No address is long. -/
theorem SocketAddr.length_toText_le (addr : SocketAddr) : addr.toText.length ≤ 64 := by
  have hport : ∀ port : UInt16, (decimal port.toNat).length ≤ 5 := fun port =>
    length_decimal_le (lt_of_lt_of_le port.toNat_lt (by decide)) (by decide)
  cases addr with
  | v4 ip port =>
      have hp := hport port
      have hip := ip.length_toText_le
      simp only [SocketAddr.toText, List.length_append, List.length_cons]
      omega
  | v6 ip port _ scopeId =>
      have hp := hport port
      have hip := ip.length_toText_le
      have hscope : (decimal scopeId.toNat).length ≤ 10 :=
        length_decimal_le (lt_of_lt_of_le scopeId.toNat_lt (by decide)) (by decide)
      simp only [SocketAddr.toText, List.length_append, List.length_cons]
      split_ifs
      · rw [List.length_nil]
        omega
      · rw [List.length_cons]
        omega

theorem SocketAddr.toText_ne_nil : ∀ addr : SocketAddr, addr.toText ≠ []
  | .v4 _ _ => List.append_ne_nil_of_right_ne_nil _ (List.cons_ne_nil _ _)
  | .v6 _ _ _ _ => List.cons_ne_nil _ _

/-- The text of an address, as the token it is. -/
def SocketAddr.token (addr : SocketAddr) : Token :=
  ⟨addr.toText, isWord_iff.mpr ⟨addr.toText_ne_nil, addr.solid_toText⟩⟩

/-! ## Reading an IPv4 address back -/

theorem toDigit_digitChar {n : Nat} (h : n < 10) : toDigit 10 n.digitChar = some n := by
  have key : ∀ n : Fin 10, toDigit 10 n.val.digitChar = some n.val := by decide
  exact key ⟨n, h⟩

/-- Decimal digits are digits, … -/
theorem isSome_toDigit_of_mem_decimal {n : Nat} :
    ∀ c ∈ decimal n, (toDigit 10 c).isSome = true := by
  induction n using Nat.strong_induction_on with
  | _ n ih =>
      intro c hc
      rw [decimal, Nat.toDigits_eq_if (by decide)] at hc
      split_ifs at hc with hn
      · rw [List.mem_singleton.mp hc, toDigit_digitChar hn]
        rfl
      · rcases List.mem_append.mp hc with hc | hc
        · exact ih _ (Nat.div_lt_self (by omega) (by decide)) c hc
        · rw [List.mem_singleton.mp hc, toDigit_digitChar (Nat.mod_lt _ (by decide))]
          rfl

/-- … and their value is the number they were written from. -/
theorem digitsValue_decimal (n : Nat) : digitsValue 10 (decimal n) = n := by
  induction n using Nat.strong_induction_on with
  | _ n ih =>
      rw [decimal, Nat.toDigits_eq_if (by decide)]
      split_ifs with hn
      · simp [digitsValue, toDigit_digitChar hn]
      · have ih := ih _ (Nat.div_lt_self (by omega : 0 < n) (by decide : 1 < 10))
        rw [digitsValue, decimal] at ih
        rw [digitsValue, List.foldl_append, ih, List.foldl_cons, List.foldl_nil,
          toDigit_digitChar (Nat.mod_lt _ (by decide)), Option.getD_some]
        omega

/-- A decimal number is read back, up to the character that ends it. -/
theorem readNumber_decimal (maxDigits : Option Nat) (allowZeroPrefix : Bool) {bound n : Nat}
    (rest : Str) (hmax : maxDigits.any (· < (decimal n).length) = false)
    (hzero : (!allowZeroPrefix && (decimal n).head? == some '0' && 1 < (decimal n).length)
      = false)
    (hbound : n ≤ bound) (hrest : ∀ c ∈ rest.head?, (toDigit 10 c).isSome = false) :
    readNumber 10 maxDigits allowZeroPrefix bound (decimal n ++ rest) = some (n, rest) := by
  have htake : (decimal n ++ rest).takeWhile (fun c => (toDigit 10 c).isSome) = decimal n := by
    rw [List.takeWhile_append_of_pos isSome_toDigit_of_mem_decimal]
    cases rest with
    | nil => simp
    | cons c rest => simp [hrest c rfl]
  have hdrop : (decimal n ++ rest).dropWhile (fun c => (toDigit 10 c).isSome) = rest := by
    rw [List.dropWhile_append_of_pos isSome_toDigit_of_mem_decimal]
    cases rest with
    | nil => rfl
    | cons c rest => rw [List.dropWhile_cons_of_neg (by simp [hrest c rfl])]
  have hne : decimal n ≠ [] := Nat.toDigits_ne_nil
  simp only [readNumber, htake, hdrop, digitsValue_decimal]
  rw [if_neg hne, if_neg (by simp [hmax]), if_neg (by simp [hzero]), if_neg (by omega)]

/-- What `read_number` asks of an octet holds of every octet. -/
theorem octet_form (b : UInt8) :
    (some 3).any (· < (decimal b.toNat).length) = false ∧
      (!false && (decimal b.toNat).head? == some '0' && 1 < (decimal b.toNat).length)
        = false := by
  have key : ∀ n : Fin 256, (some 3).any (· < (decimal n.val).length) = false ∧
      (!false && (decimal n.val).head? == some '0' && 1 < (decimal n.val).length)
        = false := by
    set_option maxRecDepth 10000 in decide
  exact key ⟨b.toNat, b.toNat_lt⟩

theorem readNumber_octet (b : UInt8) {rest : Str}
    (hrest : ∀ c ∈ rest.head?, (toDigit 10 c).isSome = false) :
    readNumber 10 (some 3) false 255 (decimal b.toNat ++ rest) = some (b.toNat, rest) :=
  readNumber_decimal _ _ _ (octet_form b).1 (octet_form b).2
    (Nat.le_of_lt_succ b.toNat_lt) hrest

theorem readIpv4Addr_toText (ip : Ipv4Addr) {rest : Str}
    (hrest : ∀ c ∈ rest.head?, (toDigit 10 c).isSome = false) :
    readIpv4Addr (ip.toText ++ rest) = some (ip, rest) := by
  have hdot : ∀ s : Str, ∀ c ∈ ('.' :: s).head?, (toDigit 10 c).isSome = false := by
    rintro s c ⟨⟩
    decide
  obtain ⟨a, b, c, d⟩ := ip
  simp only [Ipv4Addr.toText, List.append_assoc, List.cons_append, readIpv4Addr]
  rw [readNumber_octet a (hdot _)]
  simp [readGivenChar, readNumber_octet b (hdot _), readNumber_octet c (hdot _),
    readNumber_octet d hrest]

/-- An IPv4 address parses back to itself. -/
theorem fromStr_toText_v4 (ip : Ipv4Addr) (port : UInt16) :
    SocketAddr.fromStr (SocketAddr.v4 ip port).toText = some (.v4 ip port) := by
  have hcolon : ∀ c ∈ (':' :: decimal port.toNat).head?, (toDigit 10 c).isSome = false := by
    rintro c ⟨⟩
    decide
  have hport : readNumber 10 none true 65535 (decimal port.toNat) = some (port.toNat, []) := by
    have h := readNumber_decimal none true [] rfl rfl (Nat.le_of_lt_succ port.toNat_lt)
      fun c hc => absurd hc (Option.some_ne_none c).symm
    rwa [List.append_nil] at h
  simp [SocketAddr.fromStr, SocketAddr.toText, readSocketAddrV4, readIpv4Addr_toText ip hcolon,
    readPort, readGivenChar, hport]

end NatPiercer.Net
