import Rsx.Lib.Framing
import Rsx.Lib.LittleEndian
import Rsx.Lib.Machine

/-!
# Frames of the log

`header.rs`, `encode_utils.rs` and the framing of `wal.rs`: a record is a header of 16 bytes, with
the length of the payload and its checksum, and the payload, which starts with the sequence number.
-/

namespace Rsx.Wal

open List

variable {tail : List UInt8} {n : Nat}

/-! ## Checksum -/

/-- The function of the crate `crc32c`, of which nothing is assumed. -/
class Crc32c where
  computeCrc32 : List UInt8 → UInt32

export Crc32c (computeCrc32)

/-! ## Header -/

structure WalHeader where
  version : UInt8
  pad0 : UInt8 := 0
  recordType : UInt16
  len : UInt16
  pad1 : UInt16 := 0
  crc32 : UInt32
  reserved : UInt32 := 0
  deriving DecidableEq, Repr

namespace WalHeader

def size : Nat := 16

def new (recordType len : UInt16) (crc32 : UInt32) : WalHeader where
  version := 1
  recordType := recordType
  len := len
  crc32 := crc32

def toBytes (h : WalHeader) : List UInt8 :=
  [h.version, h.pad0] ++ leBytes 2 h.recordType.toNat ++ leBytes 2 h.len.toNat ++
    leBytes 2 h.pad1.toNat ++ leBytes 4 h.crc32.toNat ++ leBytes 4 h.reserved.toNat

/-- `from_bytes`: `none` for a short input or an unknown version. -/
def fromBytes : List UInt8 → Option WalHeader
  | b0 :: b1 :: b2 :: b3 :: b4 :: b5 :: b6 :: b7 :: b8 :: b9 :: b10 :: b11 :: b12 :: b13 :: b14 ::
      b15 :: _ =>
      if b0 = 1 then some {
        version := b0
        pad0 := b1
        recordType := .ofNat (ofLeBytes [b2, b3])
        len := .ofNat (ofLeBytes [b4, b5])
        pad1 := .ofNat (ofLeBytes [b6, b7])
        crc32 := .ofNat (ofLeBytes [b8, b9, b10, b11])
        reserved := .ofNat (ofLeBytes [b12, b13, b14, b15]) }
      else none
  | _ => none

@[simp] theorem length_toBytes (h : WalHeader) : h.toBytes.length = size := by
  simp [toBytes, size]

theorem ofNat_leBytes16 (x : UInt16) : UInt16.ofNat (ofLeBytes (leBytes 2 x.toNat)) = x := by
  rw [ofLeBytes_leBytes x.toNat_lt, UInt16.ofNat_toNat]

theorem ofNat_leBytes32 (x : UInt32) : UInt32.ofNat (ofLeBytes (leBytes 4 x.toNat)) = x := by
  rw [ofLeBytes_leBytes x.toNat_lt, UInt32.ofNat_toNat]

theorem fromBytes_toBytes {h : WalHeader} (hversion : h.version = 1) :
    fromBytes h.toBytes = some h := by
  obtain ⟨version, pad0, recordType, len, pad1, crc32, reserved⟩ := h
  have hread : fromBytes (toBytes ⟨version, pad0, recordType, len, pad1, crc32, reserved⟩) =
      if version = 1 then some ⟨version, pad0, .ofNat (ofLeBytes (leBytes 2 recordType.toNat)),
        .ofNat (ofLeBytes (leBytes 2 len.toNat)), .ofNat (ofLeBytes (leBytes 2 pad1.toNat)),
        .ofNat (ofLeBytes (leBytes 4 crc32.toNat)),
        .ofNat (ofLeBytes (leBytes 4 reserved.toNat))⟩ else none := rfl
  rw [hread, if_pos hversion]
  simp only [ofNat_leBytes16, ofNat_leBytes32]

end WalHeader

structure RawWalRecord where
  header : WalHeader
  payload : List UInt8
  deriving DecidableEq, Repr

def RawWalRecord.total (r : RawWalRecord) : Nat :=
  WalHeader.size + r.payload.length

def RawWalRecord.bytes (r : RawWalRecord) : List UInt8 :=
  r.header.toBytes ++ r.payload

def extractSeq (payload : List UInt8) : Option Nat :=
  if payload.length < 8 then none else some (ofLeBytes (payload.take 8))

/-! ## Packing -/

def framedWireBytes : Nat := 256

/-- A value of a `CastRecord` type: `body` is what follows the sequence number.  The assertion of
`pack` holds of every type. -/
structure CastRecord where
  recordType : UInt16
  body : List UInt8
  fits : WalHeader.size + (8 + body.length) ≤ framedWireBytes
  deriving DecidableEq, Repr

/-- `Framed`: the record under its number, of which `wire` is what `pack` makes.  The counter of the
writer has passed the number. -/
structure Framed where
  record : CastRecord
  seq : Nat
  counted : seq < u64Max
  deriving DecidableEq, Repr

namespace Framed

def payload (f : Framed) : List UInt8 :=
  leBytes 8 f.seq ++ f.record.body

theorem length_payload (f : Framed) : f.payload.length = 8 + f.record.body.length := by
  rw [payload, length_append, length_leBytes]

theorem length_payload_le (f : Framed) :
    WalHeader.size + f.payload.length ≤ framedWireBytes := by
  rw [length_payload]
  exact f.record.fits

theorem extractSeq_payload (f : Framed) : extractSeq f.payload = some f.seq := by
  have hseq : f.seq < 256 ^ 8 := by
    have := f.counted
    unfold u64Max at this
    omega
  have htake : f.payload.take 8 = leBytes 8 f.seq := by
    rw [payload, take_append_of_le_length (length_leBytes 8 f.seq).ge,
      take_of_length_le (length_leBytes 8 f.seq).le]
  unfold extractSeq
  rw [if_neg (by rw [length_payload]; omega), htake, ofLeBytes_leBytes hseq]

variable [Crc32c] (f : Framed)

def raw : RawWalRecord where
  header := .new f.record.recordType (.ofNat f.payload.length) (computeCrc32 f.payload)
  payload := f.payload

def wire : List UInt8 :=
  f.raw.bytes

theorem length_wire : f.wire.length = f.raw.total := by
  rw [wire, RawWalRecord.bytes, length_append]
  rfl

theorem size_le_length_wire : WalHeader.size ≤ f.wire.length := by
  rw [length_wire]
  exact Nat.le_add_right _ _

theorem toNat_len : f.raw.header.len.toNat = f.payload.length := by
  have hle := f.length_payload_le
  have hlt : f.payload.length < 2 ^ 16 := by
    unfold WalHeader.size framedWireBytes at hle
    omega
  exact UInt16.toNat_ofNat_of_lt' hlt

theorem crc_raw : computeCrc32 f.raw.payload = f.raw.header.crc32 :=
  rfl

theorem fromBytes_raw : WalHeader.fromBytes f.raw.header.toBytes = some f.raw.header :=
  WalHeader.fromBytes_toBytes rfl

end Framed

variable [Crc32c]

def encode (fs : List Framed) : List UInt8 :=
  fs.flatMap Framed.wire

@[simp] theorem encode_nil : encode [] = [] := rfl

@[simp] theorem encode_cons (f : Framed) (fs : List Framed) :
    encode (f :: fs) = f.wire ++ encode fs :=
  flatMap_cons

@[simp] theorem encode_append (fs gs : List Framed) : encode (fs ++ gs) = encode fs ++ encode gs :=
  flatMap_append

theorem encode_eq_nil {fs : List Framed} : encode fs = [] ↔ fs = [] := by
  constructor
  · intro h
    cases fs with
    | nil => rfl
    | cons f =>
      have hlen := congrArg List.length h
      have hwire := f.size_le_length_wire
      rw [encode_cons, length_append, length_nil] at hlen
      unfold WalHeader.size at hwire
      omega
  · rintro rfl
    rfl

theorem length_le_encode (fs : List Framed) : fs.length ≤ (encode fs).length := by
  induction fs with
  | nil => exact le_rfl
  | cons f =>
    have hwire := f.size_le_length_wire
    rw [encode_cons, length_append, length_cons]
    unfold WalHeader.size at hwire
    omega

/-! ## Reading -/

def readExact (rest : List UInt8) (n : Nat) : Option (List UInt8 × List UInt8) :=
  if rest.length < n then none else some (rest.take n, rest.drop n)

omit [Crc32c] in
theorem readExact_append {bytes : List UInt8} (h : bytes.length = n)
    (rest : List UInt8) : readExact (bytes ++ rest) n = some (bytes, rest) := by
  unfold readExact
  rw [if_neg (by rw [length_append]; omega), ← h, take_left, drop_left]

omit [Crc32c] in
theorem readExact_of_lt {rest : List UInt8} (h : rest.length < n) :
    readExact rest n = none :=
  if_pos h

/-- What `read_frame` finds.  `stop` is the file length at which the bad record would end, `none`
for `u64::MAX`, which no file is longer than. -/
inductive Frame
  | record (r : RawWalRecord)
  | eof
  | bad (what : String) (stop : Option Nat)
  deriving DecidableEq, Repr

inductive WalError
  | malformedHeader
  | corrupt (what : String) (offset : Nat)
  deriving DecidableEq, Repr

def readFrame (file : List UInt8) (offset : Nat) : Except WalError Frame :=
  match readExact (file.drop offset) WalHeader.size with
  | none => .ok (if file.length = offset then .eof else .bad "partial header" none)
  | some (headerBuf, rest) =>
    match WalHeader.fromBytes headerBuf with
    | none => .error .malformedHeader
    | some header =>
      match readExact rest header.len.toNat with
      | none => .ok (.bad "partial record" none)
      | some (payload, _) => .ok (
          if computeCrc32 payload ≠ header.crc32 then
            .bad "crc mismatch" (some (offset + (WalHeader.size + payload.length)))
          else .record ⟨header, payload⟩)

def isTornTail (file : List UInt8) (stop : Option Nat) : Bool :=
  stop.all fun stop => decide (file.length ≤ stop)

theorem readFrame_wire (before : List UInt8) (f : Framed) (after : List UInt8) :
    readFrame (before ++ (f.wire ++ after)) before.length = .ok (.record f.raw) := by
  have hbytes : f.wire ++ after = f.raw.header.toBytes ++ (f.payload ++ after) :=
    append_assoc _ _ _
  unfold readFrame
  rw [drop_left, hbytes, readExact_append (WalHeader.length_toBytes _)]
  dsimp only
  rw [f.fromBytes_raw]
  dsimp only
  rw [f.toNat_len, readExact_append rfl]
  exact congrArg Except.ok (if_neg (not_not.2 f.crc_raw))

theorem readFrame_end (file : List UInt8) : readFrame file file.length = .ok .eof := by
  unfold readFrame
  rw [drop_length]
  exact congrArg Except.ok (if_pos rfl)

theorem readExact_torn {f : Framed} (hinitial : tail <+: f.wire)
    (hshort : tail.length < f.wire.length) :
    readExact tail WalHeader.size = none ∨
      ∃ rest, readExact tail WalHeader.size = some (f.raw.header.toBytes, rest) ∧
        readExact rest f.raw.header.len.toNat = none := by
  rcases Nat.lt_or_ge tail.length WalHeader.size with hlt | hge
  · exact .inl (readExact_of_lt hlt)
  · obtain ⟨rest, rfl⟩ : f.raw.header.toBytes <+: tail := by
      refine prefix_of_prefix_length_le (prefix_append _ _) hinitial ?_
      exact hge
    refine .inr ⟨rest, readExact_append (WalHeader.length_toBytes _) rest, readExact_of_lt ?_⟩
    rw [f.length_wire, length_append] at hshort
    rw [f.toNat_len]
    exact Nat.lt_of_add_lt_add_left hshort

theorem readFrame_torn (before : List UInt8) (htorn : Torn Framed.wire tail)
    (hne : tail ≠ []) :
    ∃ what, readFrame (before ++ tail) before.length = .ok (.bad what none) := by
  obtain ⟨f, hinitial, hshort⟩ := htorn.resolve_left hne
  unfold readFrame
  rw [drop_left]
  rcases readExact_torn hinitial hshort with hheader | ⟨rest, hheader, hpayload⟩
  · rw [hheader]
    refine ⟨_, congrArg Except.ok (if_neg ?_)⟩
    have hpos := length_pos_iff.2 hne
    rw [length_append]
    omega
  · rw [hheader]
    dsimp only
    rw [f.fromBytes_raw]
    dsimp only
    rw [hpayload]
    exact ⟨_, rfl⟩

namespace ByteCount

/-- A checksum for the runs on fixed records. -/
scoped instance : Crc32c where
  computeCrc32 payload := .ofNat payload.length

end ByteCount

end Rsx.Wal
