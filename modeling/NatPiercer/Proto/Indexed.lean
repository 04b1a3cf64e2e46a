/-
# `Proto.Indexed` — the frame, index by index

`encode` and `decode` of `src/proto/packet.rs` once more, with every index
and every slice where the source has it, each of them able to fail.  An outer
`none` is a panic; the `None` of the source is the inner one.

None fails: `decode` compares the length with `HEADER_LEN` before it reads
the header and with the end of the payload before it takes that, and `encode`
keeps as many bytes of the payload as there are, or fewer.
-/
import NatPiercer.Lib.Vec
import NatPiercer.Proto.Packet

namespace NatPiercer.Proto.Indexed

open Utf8

/-- `encode` -/
def encode (h : Header) (payload : Bytes) : Option Bytes := do
  let len := payloadLen16 payload
  let kept ← Vec.slice 0 len.toNat payload
  return magic ++ ([version] ++ ([h.kind.toU8] ++ (toLe 2 h.flags.toNat ++
    (toLe 8 h.channelId.toNat ++ (toLe 4 h.srcPeerId.toNat ++ (toLe 4 h.dstPeerId.toNat ++
      (toLe 4 h.streamId.toNat ++ (toLe 2 len.toNat ++ kept))))))))

/-- `decode` -/
def decode (buf : Bytes) : Option (Option (Header × Bytes)) :=
  if buf.length < headerLen then return none
  else do
    let start ← Vec.slice 0 4 buf
    if start ≠ magic then return none
    else
      let b₄ ← buf[4]?
      if b₄ ≠ version then return none
      else
        let b₅ ← buf[5]?
        match Kind.fromU8 b₅ with
        | none => return none
        | some kind =>
            let b₆ ← buf[6]?
            let b₇ ← buf[7]?
            let channelId ← Vec.slice 8 16 buf
            let srcPeerId ← Vec.slice 16 20 buf
            let dstPeerId ← Vec.slice 20 24 buf
            let streamId ← Vec.slice 24 28 buf
            let b₂₈ ← buf[28]?
            let b₂₉ ← buf[29]?
            let payloadLen := ofLe [b₂₈, b₂₉]
            let payloadEnd := headerLen + payloadLen
            if buf.length < payloadEnd then return none
            else
              let payload ← Vec.slice headerLen payloadEnd buf
              return some
                ({ kind := kind
                   flags := .ofNat (ofLe [b₆, b₇])
                   channelId := .ofNat (ofLe channelId)
                   srcPeerId := .ofNat (ofLe srcPeerId)
                   dstPeerId := .ofNat (ofLe dstPeerId)
                   streamId := .ofNat (ofLe streamId)
                   payloadLen := .ofNat payloadLen },
                  payload)

theorem encode_eq_some (h : Header) (payload : Bytes) :
    encode h payload = some (Proto.encode h payload) := by
  have hlen : (payloadLen16 payload).toNat ≤ payload.length := by
    rw [toNat_payloadLen16]
    exact Nat.min_le_left _ _
  rw [encode, Vec.slice_zero hlen]
  rfl

section Decode
variable {buf : Bytes} {i j : Nat}

theorem slice_eq_some (hij : i ≤ j) (hj : j ≤ buf.length) :
    Vec.slice i j buf = some (Proto.slice buf i j) :=
  Vec.slice_eq_some hij hj

theorem byte_eq_some (h : i < buf.length) : buf[i]? = some (buf.getD i 0) := by
  rw [List.getElem?_eq_getElem h, List.getD_eq_getElem?_getD, List.getElem?_eq_getElem h,
    Option.getD_some]

/-- A slice of two bytes. -/
theorem slice_two (h : i + 1 < buf.length) :
    Proto.slice buf i (i + 2) = [buf.getD i 0, buf.getD (i + 1) 0] := by
  have hdrop := slice_append_drop buf (Nat.le_add_right i 1)
  have hdrop' := slice_append_drop buf (Nat.le_add_right (i + 1) 1)
  rw [slice_one (by omega)] at hdrop
  rw [slice_one h] at hdrop'
  rw [Proto.slice, ← hdrop, ← hdrop', show i + 2 - i = 2 by omega]
  rfl

theorem decode_eq_some (buf : Bytes) : decode buf = some (Proto.decode buf) := by
  unfold decode Proto.decode
  by_cases hlen : buf.length < headerLen
  · rw [if_pos hlen, if_pos hlen]
    rfl
  rw [if_neg hlen, if_neg hlen]
  have h30 : 30 ≤ buf.length := Nat.le_of_not_lt hlen
  have hslice : ∀ {i j}, i ≤ j → j ≤ 30 → Vec.slice i j buf = some (Proto.slice buf i j) :=
    fun hij hj => slice_eq_some hij (hj.trans h30)
  have hbyte : ∀ {i}, i < 30 → buf[i]? = some (buf.getD i 0) :=
    fun hi => byte_eq_some (hi.trans_le h30)
  rw [slice_two (show 7 < buf.length by omega), slice_two (show 29 < buf.length by omega)]
  simp only [hslice, hbyte, Nat.reduceLeDiff, Nat.reduceLT, Option.bind_eq_bind,
    Option.bind_some]
  cases Kind.fromU8 (buf.getD 5 0) with
  | none => split_ifs <;> rfl
  | some kind =>
      split_ifs with hmagic hversion hend
      · rfl
      · rfl
      · rfl
      · dsimp only
        rw [slice_eq_some (Nat.le_add_right headerLen _) (Nat.le_of_not_lt hend)]
        rfl

end Decode

end NatPiercer.Proto.Indexed
