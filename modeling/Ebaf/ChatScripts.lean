import Ebaf.BlockPadding
import Ebaf.CryptoCommon

/-! # The chat scripts

`udp_chat_client.py` pads a message and sends it behind an EBAF header, and
`udp_chat_server.py` checks what it receives, line by line, and cuts the padding
off.  A check that raises is `raiseIf`, and a function that raises returns the
exception.
-/
namespace Ebaf
open ByteWindow

/-- The exceptions of the scripts, with the text of a `ValueError`. -/
inductive PyException where
  | valueError (text : String)
  | indexError
  deriving DecidableEq

/-- `if c: raise ValueError(text)` -/
def raiseIf (c : Prop) [Decidable c] (text : String) : Except PyException Unit :=
  if c then .error (.valueError text) else .ok ()

section Raising
variable {α : Type} {c : Prop} [Decidable c] {text : String}
  {k : Unit → Except PyException α} {a : α}

/-- A function gets past a check when the check passes. -/
theorem raiseIf_bind_eq_ok : (raiseIf c text >>= k) = .ok a ↔ ¬ c ∧ k () = .ok a := by
  unfold raiseIf
  by_cases hc : c
  · rw [if_pos hc]
    constructor
    · intro h
      cases h
    · intro h
      exact absurd hc h.1
  · rw [if_neg hc]
    exact ⟨fun h => ⟨hc, h⟩, fun h => h.2⟩

end Raising

/-! ## The header -/

/-- `HEADER.unpack_from(data)`, for `struct.Struct("!IBBH16s")` -/
def headerUnpackFrom (data : List UInt8) : EbafCryptoHeader where
  magic := be32 data 0
  version := byteAt data 4
  action := byteAt data 5
  payloadLen := be16 data 6
  iv := load data 8 16

/-- `HEADER.pack(...)`, for fields that fit their formats -/
def headerPack (magic : Nat) (version action : UInt8) (payloadLen : Nat) (iv : List UInt8) :
    List UInt8 :=
  be16Bytes (magic / 65536) ++ be16Bytes (magic % 65536) ++ [version, action] ++
    be16Bytes payloadLen ++ iv

/-- `f"{n:08x}"` -/
def hex08 (n : Nat) : String :=
  let digits := Nat.toDigits 16 n
  String.ofList (List.replicate (8 - digits.length) '0' ++ digits)

/-! ## The server -/

/-- `parse_packet` -/
def parsePacket (data : List UInt8) : Except PyException (Nat × List UInt8) := do
  raiseIf (data.length < EbafCryptoHeader.size)
    ("short packet: need >= " ++ toString EbafCryptoHeader.size)
  let hdr := headerUnpackFrom data
  raiseIf (hdr.magic ≠ ebafCryptoMagic) ("bad magic: 0x" ++ hex08 hdr.magic)
  raiseIf (hdr.version ≠ ebafCryptoVersion) ("bad version: " ++ toString hdr.version.toNat)
  raiseIf (hdr.action ≠ 1) ("bad action: " ++ toString hdr.action.toNat)
  let body := data.drop EbafCryptoHeader.size
  raiseIf (hdr.payloadLen ≠ body.length)
    ("bad payload_len: " ++ toString hdr.payloadLen ++ " != " ++ toString body.length)
  raiseIf (hdr.payloadLen = 0) "empty payload"
  raiseIf (hdr.payloadLen % ebafCryptoBlockBytes ≠ 0)
    ("bad alignment: " ++ toString hdr.payloadLen)
  raiseIf (hdr.iv.length ≠ 16) "bad iv length"
  pure (hdr.payloadLen, body)

/-- `unpad_body`; the last byte of an empty body is an `IndexError`. -/
def unpadBody (body : List UInt8) : Except PyException (List UInt8) :=
  if body = [] then .error .indexError
  else do
    let padLen := BlockPadding.lastByte body
    raiseIf (padLen < 1 ∨ ebafCryptoBlockBytes < padLen)
      ("bad padding length: " ++ toString padLen)
    raiseIf (body.length < padLen ∨
      body.drop (body.length - padLen) ≠ List.replicate padLen (UInt8.ofNat padLen))
      "bad padding bytes"
    pure (body.take (body.length - padLen))

/-- The message the server prints for a packet it receives. -/
def receivedMessage (data : List UInt8) : Except PyException (List UInt8) := do
  let (_, body) ← parsePacket data
  unpadBody body

/-! ## The client -/

def udpMaxPayload : Nat := 65507

/-- `pad_body` -/
def padBody (body : List UInt8) : List UInt8 :=
  let padLen := (-(body.length : Int) % (ebafCryptoBlockBytes : Int)).toNat
  let padLen := if padLen = 0 then ebafCryptoBlockBytes else padLen
  body ++ List.replicate padLen (UInt8.ofNat padLen)

/-- The packet `main` sends for a message, or none when it exits because the padded
message is too large. -/
def chatPacket (message iv : List UInt8) : Option (List UInt8) :=
  let body := padBody message
  if 0xFFFF < body.length ∨ udpMaxPayload < EbafCryptoHeader.size + body.length then none
  else some (headerPack ebafCryptoMagic ebafCryptoVersion 1 body.length iv ++ body)

/-! ## Padding -/

/-- `pad_body` fills the last block. -/
theorem padBody_eq_pad (message : List UInt8) :
    padBody message = BlockPadding.pad ebafCryptoBlockBytes message := by
  have hlen : (if (-(message.length : Int) % 16).toNat = 0 then 16
      else (-(message.length : Int) % 16).toNat) = 16 - message.length % 16 := by
    split <;> omega
  show message ++ List.replicate (if (-(message.length : Int) % 16).toNat = 0 then 16
    else (-(message.length : Int) % 16).toNat) _ = _
  rw [hlen]
  show message ++ List.replicate _ (UInt8.ofNat (if (-(message.length : Int) % 16).toNat = 0 then 16
    else (-(message.length : Int) % 16).toNat)) = _
  rw [hlen]
  rfl

/-- **`unpad_body` cuts off what is a padding**, and nothing else. -/
theorem unpadBody_eq_ok_iff {body message : List UInt8} :
    unpadBody body = .ok message ↔ BlockPadding.Padded ebafCryptoBlockBytes body message := by
  rw [BlockPadding.padded_iff (by decide), unpadBody]
  by_cases hempty : body = []
  · subst hempty
    constructor
    · intro h
      cases h
    · rintro ⟨⟨hpos, -, hle, -⟩, -⟩
      exact absurd (Nat.le_trans hpos hle) (by decide)
  · rw [if_neg hempty]
    simp only [raiseIf_bind_eq_ok]
    constructor
    · rintro ⟨hrange, hbytes, hmessage⟩
      obtain ⟨hle, hends⟩ := not_or.mp hbytes
      refine ⟨⟨by omega, by omega, by omega, not_not.mp hends⟩, ?_⟩
      exact (Except.ok.inj hmessage).symm
    · rintro ⟨⟨hpos, hblock, hle, hends⟩, hmessage⟩
      refine ⟨by omega, ?_, congrArg Except.ok hmessage.symm⟩
      rintro (h | h)
      · omega
      · exact h hends

/-- **What is padded comes back.** -/
theorem unpadBody_padBody (message : List UInt8) : unpadBody (padBody message) = .ok message := by
  rw [unpadBody_eq_ok_iff, padBody_eq_pad]
  exact BlockPadding.padded_pad (by decide) message

end Ebaf
