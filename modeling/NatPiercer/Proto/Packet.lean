/-
# `Proto.Packet` — the binary frame

`src/proto/packet.rs`: a thirty-byte header (magic, version, kind, flags,
channel id, source and destination peer, stream, payload length, all
integers little-endian) and a payload.

`packet_exact` is the whole story of the format: decoding undoes encoding
whatever follows on the wire, encoding what was decoded gives back a prefix
of what was received, so `decode` accepts exactly the strings that start
with an encoding — and no proper prefix of one.
-/
import NatPiercer.Lib.Utf8

namespace NatPiercer.Proto

open Utf8

/-- `BROADCAST` -/
def broadcast : UInt32 := 0xFFFFFFFF

/-! ## Little-endian integers -/

/-- `to_le_bytes`, on `k` bytes. -/
def toLe : Nat → Nat → Bytes
  | 0, _ => []
  | k + 1, n => UInt8.ofNat n :: toLe k (n / 256)

/-- `from_le_bytes`. -/
def ofLe : Bytes → Nat
  | [] => 0
  | b :: bs => b.toNat + 256 * ofLe bs

@[simp] theorem length_toLe (k n : Nat) : (toLe k n).length = k := by
  induction k generalizing n with
  | zero => rfl
  | succ k ih => rw [toLe, List.length_cons, ih]

theorem ofLe_toLe (k n : Nat) : ofLe (toLe k n) = n % 256 ^ k := by
  induction k generalizing n with
  | zero => simp [toLe, ofLe, Nat.mod_one]
  | succ k ih =>
      rw [toLe, ofLe, ih, UInt8.toNat_ofNat', show 256 ^ (k + 1) = 2 ^ 8 * 256 ^ k by
        rw [Nat.pow_succ']; rfl]
      exact Nat.mod_mul.symm

theorem ofLe_toLe_of_lt {k n : Nat} (h : n < 256 ^ k) : ofLe (toLe k n) = n := by
  rw [ofLe_toLe, Nat.mod_eq_of_lt h]

theorem ofLe_lt (bs : Bytes) : ofLe bs < 256 ^ bs.length := by
  induction bs with
  | nil => decide
  | cons b bs ih =>
      have hb := b.toNat_lt
      rw [ofLe, List.length_cons, Nat.pow_succ]
      omega

theorem toLe_ofLe {k : Nat} {bs : Bytes} (h : bs.length = k) : toLe k (ofLe bs) = bs := by
  subst h
  induction bs with
  | nil => rfl
  | cons b bs ih =>
      have hb := b.toNat_lt
      have hdiv : (b.toNat + 256 * ofLe bs) / 256 = ofLe bs := by omega
      have hmod : UInt8.ofNat (b.toNat + 256 * ofLe bs) = b := by
        apply UInt8.toNat_inj.mp
        rw [UInt8.toNat_ofNat']
        omega
      rw [List.length_cons, toLe, ofLe, hdiv, hmod, ih]

/-! A field read from its bytes is written back as those bytes, at each width. -/

theorem toLe_u16 {bs : Bytes} (h : bs.length = 2) :
    toLe 2 (UInt16.ofNat (ofLe bs)).toNat = bs := by
  have hlt : ofLe bs < 2 ^ 16 := lt_of_lt_of_eq (ofLe_lt bs) (by rw [h]; rfl)
  rw [UInt16.toNat_ofNat', Nat.mod_eq_of_lt hlt, toLe_ofLe h]

theorem toLe_u32 {bs : Bytes} (h : bs.length = 4) :
    toLe 4 (UInt32.ofNat (ofLe bs)).toNat = bs := by
  have hlt : ofLe bs < 2 ^ 32 := lt_of_lt_of_eq (ofLe_lt bs) (by rw [h]; rfl)
  rw [UInt32.toNat_ofNat', Nat.mod_eq_of_lt hlt, toLe_ofLe h]

theorem toLe_u64 {bs : Bytes} (h : bs.length = 8) :
    toLe 8 (UInt64.ofNat (ofLe bs)).toNat = bs := by
  have hlt : ofLe bs < 2 ^ 64 := lt_of_lt_of_eq (ofLe_lt bs) (by rw [h]; rfl)
  rw [UInt64.toNat_ofNat', Nat.mod_eq_of_lt hlt, toLe_ofLe h]

/-! ## The frame -/

def magic : Bytes := [0x4F, 0x44, 0x4E, 0x50]
def version : UInt8 := 1

inductive Kind
  | control
  | dtls
  | srtp
deriving DecidableEq, Repr

/-- `kind as u8`. -/
def Kind.toU8 : Kind → UInt8
  | .control => 1
  | .dtls => 2
  | .srtp => 3

def Kind.fromU8 (v : UInt8) : Option Kind :=
  if v = 1 then some .control
  else if v = 2 then some .dtls
  else if v = 3 then some .srtp
  else none

structure Header where
  kind : Kind
  flags : UInt16
  channelId : UInt64
  srcPeerId : UInt32
  dstPeerId : UInt32
  streamId : UInt32
  payloadLen : UInt16
deriving DecidableEq, Repr

def headerLen : Nat := 30

def Header.control (channelId : UInt64) (srcPeerId dstPeerId : UInt32) (payloadLen : UInt16) :
    Header where
  kind := .control
  flags := 0
  channelId := channelId
  srcPeerId := srcPeerId
  dstPeerId := dstPeerId
  streamId := 0
  payloadLen := payloadLen

def Header.welcome (channelId : UInt64) (dstPeerId : UInt32) (payloadLen : UInt16) : Header :=
  Header.control channelId 0 dstPeerId payloadLen

/-- `payload.len().try_into().unwrap_or(u16::MAX)`. -/
def payloadLen16 (payload : Bytes) : UInt16 :=
  if payload.length ≤ 65535 then UInt16.ofNat payload.length else 65535

/-- `encode`; the length field of `h` is not read. -/
def encode (h : Header) (payload : Bytes) : Bytes :=
  let len := payloadLen16 payload
  magic ++ ([version] ++ ([h.kind.toU8] ++ (toLe 2 h.flags.toNat ++ (toLe 8 h.channelId.toNat ++
    (toLe 4 h.srcPeerId.toNat ++ (toLe 4 h.dstPeerId.toNat ++ (toLe 4 h.streamId.toNat ++
      (toLe 2 len.toNat ++ payload.take len.toNat))))))))

/-- `&buf[i..j]`. -/
def slice (buf : Bytes) (i j : Nat) : Bytes := (buf.drop i).take (j - i)

/-- `decode`.  Every byte read lies below `headerLen`, which the first test
has compared with the length. -/
def decode (buf : Bytes) : Option (Header × Bytes) :=
  if buf.length < headerLen then none
  else if slice buf 0 4 ≠ magic then none
  else if buf.getD 4 0 ≠ version then none
  else
    match Kind.fromU8 (buf.getD 5 0) with
    | none => none
    | some kind =>
        let payloadLen := ofLe (slice buf 28 30)
        let payloadEnd := headerLen + payloadLen
        if buf.length < payloadEnd then none
        else some
          ({ kind := kind
             flags := .ofNat (ofLe (slice buf 6 8))
             channelId := .ofNat (ofLe (slice buf 8 16))
             srcPeerId := .ofNat (ofLe (slice buf 16 20))
             dstPeerId := .ofNat (ofLe (slice buf 20 24))
             streamId := .ofNat (ofLe (slice buf 24 28))
             payloadLen := .ofNat payloadLen },
            slice buf headerLen payloadEnd)

/-! ## Slices of a concatenation -/

/-- A slice and what follows it. -/
theorem slice_append_drop (buf : Bytes) {i j : Nat} (h : i ≤ j) :
    slice buf i j ++ buf.drop j = buf.drop i := by
  have hdrop : (buf.drop i).drop (j - i) = buf.drop j := by
    rw [List.drop_drop, show i + (j - i) = j by omega]
  rw [slice, ← hdrop, List.take_append_drop]

theorem length_slice {buf : Bytes} {i j : Nat} (h : j ≤ buf.length) :
    (slice buf i j).length = j - i := by
  rw [slice, List.length_take, List.length_drop]
  omega

theorem slice_one {buf : Bytes} {i : Nat} (h : i < buf.length) :
    slice buf i (i + 1) = [buf.getD i 0] := by
  rw [slice, show i + 1 - i = 1 by omega, List.drop_eq_getElem_cons h, List.take_succ_cons,
    List.take_zero, List.getD_eq_getElem?_getD, List.getElem?_eq_getElem h, Option.getD_some]

/-! ## Exactness -/

@[simp] theorem Kind.fromU8_toU8 (k : Kind) : Kind.fromU8 k.toU8 = some k := by
  cases k <;> rfl

theorem Kind.toU8_of_fromU8 {v : UInt8} {k : Kind} (h : Kind.fromU8 v = some k) :
    k.toU8 = v := by
  unfold Kind.fromU8 at h
  split_ifs at h with h₁ h₂ h₃
  all_goals
    cases h
    simp_all [Kind.toU8]

theorem toNat_payloadLen16 (p : Bytes) : (payloadLen16 p).toNat = min p.length 65535 := by
  unfold payloadLen16
  split_ifs with h
  · rw [UInt16.toNat_ofNat', Nat.mod_eq_of_lt (by omega), Nat.min_eq_left h]
  · rw [Nat.min_eq_right (by omega)]
    rfl

theorem length_take_payload (p : Bytes) :
    (p.take (payloadLen16 p).toNat).length = (payloadLen16 p).toNat := by
  rw [List.length_take, toNat_payloadLen16]
  omega

/-- The length of an encoding: its header, and the payload it kept. -/
theorem length_encode (h : Header) (p : Bytes) :
    (encode h p).length = headerLen + (payloadLen16 p).toNat := by
  simp only [encode, List.length_append, length_toLe, length_take_payload, List.length_singleton,
    headerLen, show magic.length = 4 from rfl]
  omega

/-- What does not start like a packet is none. -/
theorem decode_eq_none_of_head {b : UInt8} (bs : Bytes) (h : b ≠ 0x4F) :
    decode (b :: bs) = none := by
  have hmagic : slice (b :: bs) 0 4 ≠ magic := fun heq => h (List.cons.inj heq).1
  unfold decode
  rw [if_pos hmagic, ite_self]

/-- Nor does a text decode that starts otherwise. -/
theorem decode_asBytes_eq_none {s : Str} (h : s.head? ≠ some 'O') : decode (asBytes s) = none := by
  cases hs : asBytes s with
  | nil => rfl
  | cons b bs =>
      refine decode_eq_none_of_head bs ?_
      rintro rfl
      exact h (head?_of_asBytes hs (by decide))

/-- Decoding undoes encoding, whatever follows. -/
theorem decode_encode_append (h : Header) (p r : Bytes) :
    decode (encode h p ++ r) =
      some ({ h with payloadLen := payloadLen16 p }, p.take (payloadLen16 p).toNat) := by
  have hlen : (encode h p ++ r).length = headerLen + (payloadLen16 p).toNat + r.length := by
    rw [List.length_append, length_encode]
  have hmagic : slice (encode h p ++ r) 0 4 = magic := rfl
  have hversion : (encode h p ++ r).getD 4 0 = version := rfl
  have hkind : (encode h p ++ r).getD 5 0 = h.kind.toU8 := rfl
  have hflags : slice (encode h p ++ r) 6 8 = toLe 2 h.flags.toNat := rfl
  have hchannel : slice (encode h p ++ r) 8 16 = toLe 8 h.channelId.toNat := rfl
  have hsrc : slice (encode h p ++ r) 16 20 = toLe 4 h.srcPeerId.toNat := rfl
  have hdst : slice (encode h p ++ r) 20 24 = toLe 4 h.dstPeerId.toNat := rfl
  have hstream : slice (encode h p ++ r) 24 28 = toLe 4 h.streamId.toNat := rfl
  have hpay : slice (encode h p ++ r) 28 30 = toLe 2 (payloadLen16 p).toNat := rfl
  have hofLe : ofLe (toLe 2 (payloadLen16 p).toNat) = (payloadLen16 p).toNat :=
    ofLe_toLe_of_lt (payloadLen16 p).toNat_lt
  have hbody : slice (encode h p ++ r) headerLen (headerLen + (payloadLen16 p).toNat)
      = p.take (payloadLen16 p).toNat := by
    have hdrop : (encode h p ++ r).drop headerLen = p.take (payloadLen16 p).toNat ++ r := rfl
    rw [slice, hdrop, Nat.add_sub_cancel_left, List.take_left' (length_take_payload p)]
  unfold decode
  rw [if_neg (by rw [hlen]; omega), hmagic, if_neg (by simp), hversion, if_neg (by simp), hkind,
    Kind.fromU8_toU8]
  simp only [hpay, hofLe, hbody, hflags, hchannel, hsrc, hdst, hstream]
  rw [if_neg (by rw [hlen]; omega)]
  rw [ofLe_toLe_of_lt h.flags.toNat_lt, ofLe_toLe_of_lt h.channelId.toNat_lt,
    ofLe_toLe_of_lt h.srcPeerId.toNat_lt, ofLe_toLe_of_lt h.dstPeerId.toNat_lt,
    ofLe_toLe_of_lt h.streamId.toNat_lt, UInt16.ofNat_toNat, UInt64.ofNat_toNat,
    UInt32.ofNat_toNat, UInt32.ofNat_toNat, UInt32.ofNat_toNat, UInt16.ofNat_toNat]

/-- A string long enough for a header, cut into its fields. -/
theorem cut_fields {b : Bytes} (h : headerLen ≤ b.length) {n : Nat} :
    b = slice b 0 4 ++ ([b.getD 4 0] ++ ([b.getD 5 0] ++ (slice b 6 8 ++ (slice b 8 16 ++
      (slice b 16 20 ++ (slice b 20 24 ++ (slice b 24 28 ++ (slice b 28 30 ++
        (slice b 30 (30 + n) ++ b.drop (30 + n)))))))))) := by
  have hlen : 30 ≤ b.length := h
  rw [slice_append_drop b (by omega : 30 ≤ 30 + n), slice_append_drop b (by decide : 28 ≤ 30),
    slice_append_drop b (by decide : 24 ≤ 28), slice_append_drop b (by decide : 20 ≤ 24),
    slice_append_drop b (by decide : 16 ≤ 20), slice_append_drop b (by decide : 8 ≤ 16),
    slice_append_drop b (by decide : 6 ≤ 8), ← slice_one (by omega : 5 < b.length),
    slice_append_drop b (by decide : 5 ≤ 5 + 1), ← slice_one (by omega : 4 < b.length),
    slice_append_drop b (by decide : 4 ≤ 4 + 1), slice_append_drop b (by decide : 0 ≤ 4),
    List.drop_zero]

/-- What was decoded encodes to a prefix of what was received. -/
theorem encode_prefix_of_decode {b : Bytes} {h : Header} {p : Bytes}
    (hdec : decode b = some (h, p)) :
    p.length = h.payloadLen.toNat ∧ encode h p <+: b := by
  unfold decode at hdec
  split_ifs at hdec with hlen hmagic hversion
  cases hkind : Kind.fromU8 (b.getD 5 0) with
  | none =>
      rw [hkind] at hdec
      exact absurd hdec (by simp)
  | some kind =>
      rw [hkind] at hdec
      dsimp only at hdec
      split_ifs at hdec with hend
      have hlen : headerLen ≤ b.length := by omega
      have hlen30 : 30 ≤ b.length := hlen
      obtain ⟨rfl, rfl⟩ := Prod.mk.inj (Option.some.inj hdec)
      have hpay : ofLe (slice b 28 30) < 65536 := by
        have h := ofLe_lt (slice b 28 30)
        rwa [length_slice hlen30] at h
      have hbody : (slice b headerLen (headerLen + ofLe (slice b 28 30))).length
          = ofLe (slice b 28 30) := by
        rw [length_slice (by omega), Nat.add_sub_cancel_left]
      have hn : (UInt16.ofNat (ofLe (slice b 28 30))).toNat = ofLe (slice b 28 30) := by
        rw [UInt16.toNat_ofNat', Nat.mod_eq_of_lt hpay]
      refine ⟨by rw [hbody, hn], ?_⟩
      have hp16 : (payloadLen16 (slice b headerLen (headerLen + ofLe (slice b 28 30)))).toNat
          = ofLe (slice b 28 30) := by
        rw [toNat_payloadLen16, hbody, Nat.min_eq_left (by omega)]
      have hslice : ∀ i j k, j ≤ 30 → j - i = k → (slice b i j).length = k :=
        fun i j k hj hk => by rw [length_slice (hj.trans hlen30), hk]
      refine ⟨b.drop (30 + ofLe (slice b 28 30)), ?_⟩
      conv_rhs => rw [cut_fields hlen (n := ofLe (slice b 28 30))]
      simp only [encode, hp16, List.append_assoc]
      rw [not_not.mp hmagic, not_not.mp hversion, ← Kind.toU8_of_fromU8 hkind,
        toLe_u16 (hslice 6 8 2 (by decide) rfl), toLe_u64 (hslice 8 16 8 (by decide) rfl),
        toLe_u32 (hslice 16 20 4 (by decide) rfl), toLe_u32 (hslice 20 24 4 (by decide) rfl),
        toLe_u32 (hslice 24 28 4 (by decide) rfl),
        toLe_ofLe (hslice 28 30 2 (by decide) rfl), List.take_of_length_le hbody.le]
      rfl

/-- Only its own bytes decide how a string decodes: a proper prefix of an
encoding is cut short of the payload it announces. -/
theorem decode_eq_none_of_prefix {h : Header} {p b : Bytes} (hb : b <+: encode h p)
    (hne : b ≠ encode h p) : decode b = none := by
  match hdec : decode b with
  | none => rfl
  | some (h', p') =>
      exfalso
      -- what `b` decodes to is what the whole encoding decodes to
      obtain ⟨hlen', r, hr⟩ := encode_prefix_of_decode hdec
      obtain ⟨t, ht⟩ := hb
      have hwhole : decode (encode h p) = decode (encode h' p' ++ (r ++ t)) := by
        rw [← List.append_assoc, hr, ht]
      rw [decode_encode_append h' p', ← List.append_nil (encode h p),
        decode_encode_append h p] at hwhole
      have hlen : payloadLen16 p = payloadLen16 p' := by
        have := congrArg Header.payloadLen (congrArg Prod.fst (Option.some.inj hwhole))
        exact this
      have hb : b.length = headerLen + (payloadLen16 p').toNat + r.length := by
        rw [← hr, List.length_append, length_encode]
      have hall : (encode h p).length = b.length + t.length := by
        rw [← ht, List.length_append]
      rw [length_encode, hlen] at hall
      have ht0 : t = [] := List.length_eq_zero_iff.mp (by omega)
      rw [ht0, List.append_nil] at ht
      exact hne ht

/-- **The packet format is exact in both directions.** -/
theorem packet_exact :
    (∀ (h : Header) (p r : Bytes),
      decode (encode h p ++ r) =
        some ({ h with payloadLen := .ofNat (min p.length 65535) },
          p.take (min p.length 65535))) ∧
    (∀ (b : Bytes) (h : Header) (p : Bytes), decode b = some (h, p) →
      p.length = h.payloadLen.toNat ∧ encode h p <+: b) ∧
    (∀ b : Bytes, (decode b).isSome ↔ ∃ h p r, b = encode h p ++ r) ∧
    (∀ (h : Header) (p b : Bytes), b <+: encode h p → b ≠ encode h p → decode b = none) := by
  refine ⟨fun h p r => ?_, fun b h p => encode_prefix_of_decode, fun b => ⟨fun hb => ?_, ?_⟩,
    fun h p b => decode_eq_none_of_prefix⟩
  · have hlen : payloadLen16 p = .ofNat (min p.length 65535) := by
      apply UInt16.toNat_inj.mp
      rw [toNat_payloadLen16, UInt16.toNat_ofNat', Nat.mod_eq_of_lt (by omega)]
    rw [decode_encode_append, toNat_payloadLen16, hlen]
  · obtain ⟨⟨h, p⟩, hdec⟩ := Option.isSome_iff_exists.mp hb
    obtain ⟨r, hr⟩ := (encode_prefix_of_decode hdec).2
    exact ⟨h, p, r, hr.symm⟩
  · rintro ⟨h, p, r, rfl⟩
    rw [decode_encode_append]
    rfl

/-- At a packet of five bytes, with two more behind it. -/
theorem packet_exact_hello :
    let h := Header.control 3 1 2 0
    let p : Bytes := [0x68, 0x65, 0x6C, 0x6C, 0x6F]
    (p.length = (5 : UInt16).toNat ∧ encode { h with payloadLen := 5 } p <+: encode h p ++ [1, 2]) ∧
      decode ((encode h p).take 34) = none :=
  ⟨packet_exact.2.1 _ { Header.control 3 1 2 0 with payloadLen := 5 } _ (by decide +kernel),
    packet_exact.2.2.2 (.control 3 1 2 0) [0x68, 0x65, 0x6C, 0x6C, 0x6F] _
      (List.take_prefix 34 _) (by decide +kernel)⟩

end NatPiercer.Proto
