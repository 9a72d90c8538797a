import Exchange.Database.Responses

/-!
# A response in memory

The journal holds the `OrderResponseT` of the object API as the compiler lays it out: 64 bytes,
the least significant byte of each number first, with padding before the wide fields and behind
the last one. `poll_server` copies these bytes and the readers cast them back.
-/

namespace Exchange

open MmapLog Lib

/-- `OrderResponseT` as it lies in memory, read and written. -/
structure ResponseCodec extends ResponseLayout where
  encode : OrderResponse → Payload

/-- The record is read back as it was written. -/
def ResponseCodec.Stores (l : ResponseCodec) (r : OrderResponse) : Prop :=
  (l.encode r).length = l.size ∧ l.decode (l.encode r) = r

instance (l : ResponseCodec) (r : OrderResponse) : Decidable (l.Stores r) :=
  inferInstanceAs (Decidable ((l.encode r).length = l.size ∧ l.decode (l.encode r) = r))

/-! ## Numbers -/

/-- The `n` bytes of a number. -/
def wordBytes : Nat → Nat → List UInt8
  | 0, _ => []
  | n + 1, v => UInt8.ofNat v :: wordBytes n (v / 2 ^ 8)

/-- The number that bytes are. -/
def bytesWord : List UInt8 → Nat
  | [] => 0
  | b :: bs => b.toNat + 2 ^ 8 * bytesWord bs

@[simp] theorem length_wordBytes : ∀ n v, (wordBytes n v).length = n
  | 0, _ => rfl
  | n + 1, v => congrArg Nat.succ (length_wordBytes n (v / 2 ^ 8))

/-- Bytes written and read as a word. -/
theorem bytesWord_wordBytes : ∀ {n v : Nat}, v < 2 ^ (8 * n) → bytesWord (wordBytes n v) = v
  | 0, v, h => by
    have hzero : v < 1 := h
    rw [Nat.lt_one_iff.mp hzero]
    rfl
  | n + 1, v, h => by
    have hrest : v / 2 ^ 8 < 2 ^ (8 * n) := by
      rw [Nat.div_lt_iff_lt_mul (by decide), ← Nat.pow_add]
      exact h
    show (UInt8.ofNat v).toNat + 2 ^ 8 * bytesWord (wordBytes n (v / 2 ^ 8)) = v
    rw [bytesWord_wordBytes hrest, UInt8.toNat_ofNat']
    omega

/-- `int64_t` in two's complement. -/
def signed64 (v : Nat) : Int := if v < 2 ^ 63 then v else v - 2 ^ 64

/-- A signed price comes back from its 64 bits. -/
theorem signed64_mod {p : Int} (hlow : -2 ^ 63 ≤ p) (hhigh : p < 2 ^ 63) :
    signed64 (p % 2 ^ 64).toNat = p := by
  unfold signed64
  split <;> omega

/-! ## Enumerations -/

/-- `ExecType` is a byte. -/
def ExecType.byte : ExecType → UInt8
  | new => 0
  | partialFill => 1
  | fill => 2
  | rejected => 3
  | cancelled => 4
  | replaced => 5
  | orderStatus => 6
  | complete => 7

def ExecType.ofByte (b : UInt8) : ExecType :=
  match b.toNat with
  | 0 => new
  | 1 => partialFill
  | 2 => fill
  | 3 => rejected
  | 4 => cancelled
  | 5 => replaced
  | 6 => orderStatus
  | _ => complete

def RejectCode.byte : RejectCode → UInt8
  | none => 0
  | priceInvalid => 1
  | invalidQuantity => 2
  | orderNotFound => 3
  | invalidAction => 4
  | invalidModify => 5
  | duplicateOrderID => 6
  | invalidSequenceNumber => 7
  | loginAtOtherSession => 8
  | unknown => 255

def RejectCode.ofByte (b : UInt8) : RejectCode :=
  match b.toNat with
  | 0 => none
  | 1 => priceInvalid
  | 2 => invalidQuantity
  | 3 => orderNotFound
  | 4 => invalidAction
  | 5 => invalidModify
  | 6 => duplicateOrderID
  | 7 => invalidSequenceNumber
  | 8 => loginAtOtherSession
  | _ => unknown

def Side.byte : Side → UInt8
  | buy => 0
  | sell => 1
  | none => 2
  | other code => UInt8.ofNat (code % 2 ^ 8).toNat

def Side.ofByte (b : UInt8) : Side :=
  match b.toNat with
  | 0 => buy
  | 1 => sell
  | 2 => none
  | n => other (if n < 2 ^ 7 then n else n - 2 ^ 8)

/-- A side that is a byte of its own. -/
def Side.IsByte : Side → Prop
  | other code => -2 ^ 7 ≤ code ∧ code < 2 ^ 7 ∧ code ≠ 0 ∧ code ≠ 1 ∧ code ≠ 2
  | _ => True

theorem ExecType.ofByte_byte (e : ExecType) : ofByte e.byte = e := by
  cases e <;> rfl

theorem RejectCode.ofByte_byte (r : RejectCode) : ofByte r.byte = r := by
  cases r <;> rfl

theorem Side.ofByte_byte {s : Side} (h : s.IsByte) : ofByte s.byte = s := by
  cases s with
  | other code =>
    obtain ⟨hlow, hhigh, h₀, h₁, h₂⟩ := h
    have hbyte : (Side.byte (.other code)).toNat = (code % 2 ^ 8).toNat := by
      show (UInt8.ofNat _).toNat = _
      rw [UInt8.toNat_ofNat']
      omega
    unfold ofByte
    rw [hbyte]
    split
    · omega
    · omega
    · omega
    · congr 1
      split <;> omega
  | buy => rfl
  | sell => rfl
  | none => rfl

/-! ## The record -/

/-- The bytes of an `OrderResponseT`. -/
def OrderResponse.bytes (r : OrderResponse) : Payload :=
  [r.execType.byte, 0, 0, 0] ++ wordBytes 4 r.orderId.toNat ++ wordBytes 4 r.clientId.toNat ++
    [0, 0, 0, 0] ++ wordBytes 8 r.execId ++ wordBytes 4 r.symbolId.toNat ++ [r.side.byte, 0, 0, 0] ++
    wordBytes 8 (r.p % 2 ^ 64).toNat ++ wordBytes 8 r.q ++ wordBytes 8 r.qRem ++
    [r.rejectCode.byte, 0, 0, 0, 0, 0, 0, 0]

def OrderResponse.ofBytes (b : List UInt8) : OrderResponse where
  execType := .ofByte (b.getD 0 0)
  orderId := UInt32.ofNat (bytesWord ((b.drop 4).take 4))
  clientId := UInt32.ofNat (bytesWord ((b.drop 8).take 4))
  execId := bytesWord ((b.drop 16).take 8)
  symbolId := UInt32.ofNat (bytesWord ((b.drop 24).take 4))
  side := .ofByte (b.getD 28 0)
  p := signed64 (bytesWord ((b.drop 32).take 8))
  q := bytesWord ((b.drop 40).take 8)
  qRem := bytesWord ((b.drop 48).take 8)
  rejectCode := .ofByte (b.getD 56 0)

/-- The layout of `OrderResponseT`. -/
def OrderResponse.codec : ResponseCodec where
  size := 64
  decode := ofBytes
  encode := bytes

/-- The fields are values of their types. -/
structure OrderResponse.InBounds (r : OrderResponse) : Prop where
  execId : r.execId < 2 ^ 64
  side : r.side.IsByte
  low : -2 ^ 63 ≤ r.p
  high : r.p < 2 ^ 63
  q : r.q < 2 ^ 64
  qRem : r.qRem < 2 ^ 64

/-- Every `OrderResponseT` is read back as it was written. -/
theorem OrderResponse.codec_stores {r : OrderResponse} (h : r.InBounds) : codec.Stores r := by
  have hid : ∀ v : UInt32, UInt32.ofNat (bytesWord (wordBytes 4 v.toNat)) = v := by
    intro v
    rw [bytesWord_wordBytes (by exact v.toNat_lt), UInt32.ofNat_toNat]
  have hprice : signed64 (bytesWord (wordBytes 8 (r.p % 2 ^ 64).toNat)) = r.p := by
    rw [bytesWord_wordBytes (by omega), signed64_mod h.low h.high]
  -- the bytes of each field
  have horder : (r.bytes.drop 4).take 4 = wordBytes 4 r.orderId.toNat := rfl
  have hclient : (r.bytes.drop 8).take 4 = wordBytes 4 r.clientId.toNat := rfl
  have hexec : (r.bytes.drop 16).take 8 = wordBytes 8 r.execId := rfl
  have hsymbol : (r.bytes.drop 24).take 4 = wordBytes 4 r.symbolId.toNat := rfl
  have hp : (r.bytes.drop 32).take 8 = wordBytes 8 (r.p % 2 ^ 64).toNat := rfl
  have hq : (r.bytes.drop 40).take 8 = wordBytes 8 r.q := rfl
  have hqRem : (r.bytes.drop 48).take 8 = wordBytes 8 r.qRem := rfl
  have htype : r.bytes.getD 0 0 = r.execType.byte := rfl
  have hside : r.bytes.getD 28 0 = r.side.byte := rfl
  have hcode : r.bytes.getD 56 0 = r.rejectCode.byte := rfl
  refine ⟨rfl, ?_⟩
  show ofBytes r.bytes = r
  unfold ofBytes
  rw [htype, horder, hid, hclient, hid, hexec, bytesWord_wordBytes h.execId, hsymbol, hid, hside, hp,
    hprice, hq, bytesWord_wordBytes h.q, hqRem, bytesWord_wordBytes h.qRem, hcode, ExecType.ofByte_byte,
    RejectCode.ofByte_byte, Side.ofByte_byte h.side]

end Exchange
