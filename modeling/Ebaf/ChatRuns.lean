import Ebaf.ChatFraming
import Ebaf.Utf8Text
import Mathlib.Algebra.Order.Ring.Rat

/-! # Runs of the chat scripts

`main` of the client sends its message a number of times, each time behind a header
with a fresh IV.  `main` of the server waits for as many messages until a deadline: a
turn of its loop reads the clock and either serves a datagram or leaves the loop.  A
timeout may be infinite or not a number, and then `settimeout` refuses it.
-/
namespace Ebaf
open ByteWindow Utf8Text

/-! ## Floating-point numbers -/

/-- A floating-point number. -/
inductive PyFloat where
  | finite (q : Rat)
  | inf
  | negInf
  | nan

namespace PyFloat

/-- `x < 0` -/
def Negative : PyFloat → Prop
  | .finite q => q < 0
  | .negInf => True
  | .inf | .nan => False

instance : (x : PyFloat) → Decidable x.Negative
  | .finite q => inferInstanceAs (Decidable (q < 0))
  | .negInf => isTrue trivial
  | .inf | .nan => isFalse id

/-- `x <= 0` -/
def NotPositive : PyFloat → Prop
  | .finite q => q ≤ 0
  | .negInf => True
  | .inf | .nan => False

instance : (x : PyFloat) → Decidable x.NotPositive
  | .finite q => inferInstanceAs (Decidable (q ≤ 0))
  | .negInf => isTrue trivial
  | .inf | .nan => isFalse id

/-- `x + t`, where `round` rounds the sum. -/
def plus (round : Rat → PyFloat) : PyFloat → Rat → PyFloat
  | .finite q, t => round (q + t)
  | x, _ => x

/-- `x - t` -/
def minus (round : Rat → PyFloat) : PyFloat → Rat → PyFloat
  | .finite q, t => round (q - t)
  | x, _ => x

end PyFloat

/-! ## The client -/

/-- The arguments of `udp_chat_client.py`. -/
structure ClientArgs where
  host : String
  port : Int
  message : String
  count : Int
  interval : PyFloat

/-- A datagram the client sends, and the line it prints. -/
structure ClientSend where
  packet : List UInt8
  line : String

/-- `main`, with the bytes `os.urandom` returns for each packet: what it sends, as long as
neither `sendto` nor a pause raises an exception, or the text of its `SystemExit`. -/
def clientMain (args : ClientArgs) (urandom : Nat → List UInt8) : Except String (List ClientSend) :=
  if args.count < 1 then .error "--count must be >= 1"
  else if args.interval.Negative then .error "--interval must be >= 0"
  else
    let body := padBody (encode args.message)
    if 0xFFFF < body.length ∨ udpMaxPayload < EbafCryptoHeader.size + body.length then
      .error "padded message too large for UDP EBAF packet"
    else
      .ok ((List.range args.count.toNat).map fun i =>
        let sequence := i + 1
        let packet :=
          headerPack ebafCryptoMagic ebafCryptoVersion 1 body.length (urandom sequence) ++ body
        { packet := packet
          line := "sent " ++ args.host ++ ":" ++ toString args.port ++ " seq=" ++
            toString sequence ++ " bytes=" ++ toString packet.length })

/-- **What the client sends**: as many packets as it was asked for, each one for the
message. -/
theorem clientMain_sends {args : ClientArgs} {urandom : Nat → List UInt8} {sends : List ClientSend}
    (h : clientMain args urandom = .ok sends) :
    (sends.length : Int) = args.count ∧ ∀ send ∈ sends, ∃ i,
      chatPacket (encode args.message) (urandom i) = some send.packet := by
  unfold clientMain at h
  split at h
  · cases h
  rename_i hcount
  split at h
  · cases h
  dsimp only at h
  split at h
  · cases h
  rename_i hfits
  obtain rfl := Except.ok.inj h
  refine ⟨by rw [List.length_map, List.length_range]; omega, fun send hsend => ?_⟩
  obtain ⟨i, -, rfl⟩ := List.mem_map.mp hsend
  exact ⟨i + 1, if_neg hfits⟩

/-! ## The server -/

/-- The exceptions of `settimeout`. -/
inductive SettimeoutError where
  | valueError
  | overflowError
  deriving DecidableEq

/-- `sock.settimeout`: the exception it raises, if any.  The time is kept in nanoseconds, as
a number of 64 bits. -/
def settimeout (round : Rat → PyFloat) : PyFloat → Option SettimeoutError
  | .nan => some .valueError
  | .inf | .negInf => some .overflowError
  | .finite seconds =>
    match round (seconds * 10 ^ 9) with
    | .finite nanoseconds => if nanoseconds.ceil < 2 ^ 63 then none else some .overflowError
    | _ => some .overflowError

/-- The arguments of `udp_chat_server.py`. -/
structure ServerArgs where
  count : Int
  timeout : PyFloat

/-- What a call of `recvfrom` does. -/
inductive Recvfrom where
  | timedOut
  | fails
  | datagram (data : List UInt8) (host : String) (port : Nat)

/-- One turn of the loop: the clock it reads, and the call. -/
structure Turn where
  now : Rat
  recvfrom : Recvfrom

/-- `malformed` -/
def malformedLine (host : String) (port : Nat) (reason : String) (size : Nat) : String :=
  "malformed " ++ host ++ ":" ++ toString port ++ " bytes=" ++ toString size ++ " reason=" ++ reason

/-- Where `main` is: in its loop, behind it, or left by an exception. -/
inductive ServerPlace where
  | inLoop | behindLoop | raised
  deriving DecidableEq

/-- `valid`, the lines printed, and the place. -/
structure ServerRun where
  valid : Nat
  lines : List String
  place : ServerPlace

/-- `deadline` -/
def ServerArgs.deadline (args : ServerArgs) (round : Rat → PyFloat) (start : Rat) : PyFloat :=
  args.timeout.plus round start

namespace Turn

/-- The datagram of a turn. -/
def data? (turn : Turn) : Option (List UInt8) :=
  match turn.recvfrom with
  | .timedOut | .fails => none
  | .datagram data _ _ => some data

section Kinds
variable (round : Rat → PyFloat) (deadline : PyFloat) (turn : Turn)

/-- `remaining` -/
def remaining : PyFloat := deadline.minus round turn.now

/-- The turn serves a datagram. -/
def Serves : Prop :=
  ¬ (turn.remaining round deadline).NotPositive ∧
    settimeout round (turn.remaining round deadline) = none ∧ turn.data?.isSome = true

instance : Decidable (turn.Serves round deadline) := inferInstanceAs (Decidable (_ ∧ _ ∧ _))

/-- The turn is too late, or gets nothing until the deadline. -/
def TooLate : Prop :=
  (turn.remaining round deadline).NotPositive ∨
    settimeout round (turn.remaining round deadline) = none ∧ turn.recvfrom = .timedOut

/-- The turn raises an exception: the time that is left is refused, or the call fails. -/
def Raises : Prop :=
  ¬ (turn.remaining round deadline).NotPositive ∧
    (settimeout round (turn.remaining round deadline) ≠ none ∨ turn.recvfrom = .fails)

end Kinds

/-- The message of a datagram. -/
def text? (turn : Turn) : Option String :=
  turn.data?.bind fun data => (receivedMessage data).toOption.map decodeReplace

/-- The line printed for a datagram. -/
def line (turn : Turn) : String :=
  match turn.recvfrom with
  | .timedOut | .fails => ""
  | .datagram data host port =>
    match receivedMessage data with
    | .ok body => decodeReplace body
    | .error (.valueError reason) => malformedLine host port reason data.length
    | .error .indexError => ""

/-- It counts as a message. -/
def counts (turn : Turn) : Bool := turn.text?.isSome

variable {round : Rat → PyFloat} {deadline : PyFloat} {turn : Turn}

theorem data?_of_datagram {data : List UInt8} {host : String} {port : Nat}
    (h : turn.recvfrom = .datagram data host port) : turn.data? = some data := by
  rw [data?, h]

/-- The line and the count for a message. -/
theorem shows_of_ok {data body : List UInt8} {host : String} {port : Nat}
    (h : turn.recvfrom = .datagram data host port) (hmessage : receivedMessage data = .ok body) :
    turn.line = decodeReplace body ∧ turn.counts = true := by
  constructor
  · simp only [line, h, hmessage]
  · simp only [counts, text?, data?_of_datagram h, Option.bind_some, hmessage]
    rfl

theorem data?_of_timedOut (h : turn.recvfrom = .timedOut) : turn.data? = none := by
  rw [data?, h]

theorem data?_of_fails (h : turn.recvfrom = .fails) : turn.data? = none := by
  rw [data?, h]

end Turn

/-! A check raises a `ValueError` only, and `parse_packet` refuses an empty body, so that
`unpad_body` finds a last byte. -/

/-- **What the loop has done**: it served the first turns, one line each, counted the
messages among them, and no more than it waits for.  It is behind the loop when it has
them all, or at a turn that is too late, and left by an exception at a turn that raises
one; else it waits. -/
structure LoopSpec (round : Rat → PyFloat) (count : Int) (deadline : PyFloat) (valid : Nat)
    (turns served rest : List Turn) (run : ServerRun) : Prop where
  turns : turns = served ++ rest
  serves : ∀ turn ∈ served, turn.Serves round deadline
  lines : run.lines = served.map Turn.line
  valid : run.valid = valid + served.countP Turn.counts
  le : (run.valid : Int) ≤ count
  place : run.place = .inLoop ∧ rest = [] ∧ (run.valid : Int) < count ∨
    run.place = .behindLoop ∧ ((run.valid : Int) = count ∨
      ∃ turn more, rest = turn :: more ∧ turn.TooLate round deadline) ∨
    run.place = .raised ∧ (run.valid : Int) < count ∧
      ∃ turn more, rest = turn :: more ∧ turn.Raises round deadline

section Loop
variable {round : Rat → PyFloat} {count : Int} {deadline : PyFloat} {valid : Nat} {turn : Turn}
  {turns served rest : List Turn} {run : ServerRun}

/-- The loop is left before the turn. -/
theorem LoopSpec.stop (hvalid : (valid : Int) ≤ count)
    (hwhy : (valid : Int) = count ∨ turn.TooLate round deadline) :
    LoopSpec round count deadline valid (turn :: turns) [] (turn :: turns)
      ⟨valid, [], .behindLoop⟩ where
  turns := rfl
  serves := List.forall_mem_nil _
  lines := rfl
  valid := rfl
  le := hvalid
  place := Or.inr (Or.inl ⟨rfl, hwhy.imp id fun hlate => ⟨turn, turns, rfl, hlate⟩⟩)

/-- The turn serves a datagram, and the loop goes on. -/
theorem LoopSpec.serve (hserves : turn.Serves round deadline)
    (h : LoopSpec round count deadline (valid + if turn.counts then 1 else 0) turns served rest run) :
    LoopSpec round count deadline valid (turn :: turns) (turn :: served) rest
      { run with lines := turn.line :: run.lines } where
  turns := congrArg (turn :: ·) h.turns
  serves := List.forall_mem_cons.mpr ⟨hserves, h.serves⟩
  lines := congrArg (turn.line :: ·) h.lines
  valid := by
    rw [List.countP_cons, h.valid]
    omega
  le := h.le
  place := h.place

end Loop

end Ebaf
