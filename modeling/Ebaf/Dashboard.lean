import Ebaf.DemoState
import Ebaf.Runs

/-! # The threads of the dashboard

The sender thread (`_send_loop`) and the two reader threads (`_read_app`) work on
one `DemoState`.  Every `with self.lock` block is one step; between two blocks a
reader keeps what it has read (`Pc`).  Beside the state stands what no thread
looks at: the trace id of every datagram, and the packets made and stored so far,
each with the datagram its event is about.
-/
namespace Ebaf
open CStrings Runs

/-! ## The sender -/

structure Message where
  app : CString
  method : CString
  path : CString
  detail : CString

def messages : List Message :=
  [⟨lit "auth", lit "POST", lit "/login", lit "user=miku role=admin token=demo"⟩,
    ⟨lit "metrics", lit "GET", lit "/metrics", lit "cpu=07 mem=42 xdp=active"⟩,
    ⟨lit "chat", lit "MSG", lit "/room/main", lit "client says hello from live cipher demo"⟩,
    ⟨lit "billing", lit "PAY", lit "/orders/1042", lit "amount=19.99 currency=USD"⟩,
    ⟨lit "health", lit "PING", lit "/health", lit "service=edge-gateway status=green"⟩,
    ⟨lit "search", lit "GET", lit "/api/search", lit "q=ebpf+xdp+crypto"⟩,
    ⟨lit "video", lit "RTP", lit "/stream/camera-a", lit "frame=delta quality=720p"⟩,
    ⟨lit "dns", lit "QUERY", lit "/resolve", lit "name=demo.internal type=A"⟩]

/-- The sizes a body is cut or filled to. -/
def bodySizes : List Nat := [31, 47, 63, 79, 111, 143, 191, 239]

/-- `trace_id` -/
def traceIdOf (seq rand : Nat) : CString :=
  zeroPadded 6 (hexNumber seq) ++ zeroPadded 4 (hexNumber rand)

/-- `extra`, from the numbers drawn for it. -/
def extraText (extras : List Nat) : CString :=
  [32].intercalate (extras.mapIdx fun i n => printf (lit "k%u=%u") [decimal i, decimal n])

/-- `text` -/
def messageText (message : Message) (traceId : CString) (extras : List Nat) (seq : Nat) : CString :=
  strip (printf (lit "%s %s app=%s trace=%s %s %s seq=%s")
    [message.method, message.path, message.app, traceId, message.detail, extraText extras,
      zeroPadded 6 (decimal seq)])

/-- `body`: the text, filled with letters if it is short. -/
def messageBody (text : CString) (size seq : Nat) : CString :=
  (if text.length < size then
    text ++ ([32] ++ (List.range (size - text.length - 1)).map fun i =>
      UInt8.ofNat (65 + (seq + i) % 26))
  else text).take size

/-- The length with the padding of the cipher. -/
def paddedLen (length : Nat) : Nat :=
  let padLen := ((-(length : Int)) % 16).toNat
  length + if padLen = 0 then 16 else padLen

/-- What `_send_loop` records of the datagram `seq`. -/
def sentMetadata (seq rand : Nat) (extras : List Nat) : Metadata :=
  let message := messages.get ⟨seq % messages.length, Nat.mod_lt _ (by decide)⟩
  let size := bodySizes.get ⟨seq % 8, Nat.mod_lt _ (by decide)⟩
  let body := messageBody (messageText message (traceIdOf seq rand) extras seq) size seq
  { app := message.app
    method := message.method
    path := message.path
    traceId := traceIdOf seq rand
    summary := printf (lit "%s %s app=%s body=%uB padded=%uB trace=%s")
      [message.method, message.path, message.app, decimal body.length,
        decimal (paddedLen body.length), traceIdOf seq rand] }

/-- The numbers `random.randrange` can return for the datagram `seq`. -/
def Drawn (seq rand : Nat) (extras : List Nat) : Prop :=
  rand < 65535 ∧ extras.length = seq % 5 ∧ ∀ n ∈ extras, 10 ≤ n ∧ n < 9999

instance (seq rand : Nat) (extras : List Nat) : Decidable (Drawn seq rand extras) :=
  inferInstanceAs (Decidable (_ ∧ _ ∧ _))

/-! ## The readers -/

/-- The reader threads, one for each process. -/
inductive Reader where
  | encrypt
  | decrypt
  deriving DecidableEq

namespace Reader

def label : Reader → CString
  | .encrypt => lit "encrypt"
  | .decrypt => lit "decrypt"

/-- What `_read_app` makes of a line. -/
def handedOn (r : Reader) (line : CString) : CString :=
  if (lstrip line).head? = some 123 then line else r.label ++ (lit ": " ++ line)

end Reader

instance (P : Reader → Prop) [DecidablePred P] : Decidable (∀ r, P r) :=
  decidable_of_iff (P .encrypt ∧ P .decrypt)
    ⟨fun h r => by
      cases r with
      | encrypt => exact h.1
      | decrypt => exact h.2, fun h => ⟨h _, h _⟩⟩

/-- A packet made from an event, with the datagram the event is about. -/
structure Record where
  reader : Reader
  datagram : Nat
  packet : DemoPacket

/-- Where a reader is between two sections. -/
inductive Pc where
  | idle
  | read (record : Record)
  | counted (record : Record)
  | noted (line : CString)

instance : (p : Pc) → Decidable (p = .idle)
  | .idle => isTrue rfl
  | .read _ => isFalse Pc.noConfusion
  | .counted _ => isFalse Pc.noConfusion
  | .noted _ => isFalse Pc.noConfusion

/-- The condition holds of the line a reader has noted, if it has. -/
def Pc.OnNoted (P : CString → Prop) : Pc → Prop
  | .noted line => P line
  | _ => True

instance (P : CString → Prop) [DecidablePred P] : (p : Pc) → Decidable (p.OnNoted P)
  | .noted line => inferInstanceAs (Decidable (P line))
  | .idle => isTrue trivial
  | .read _ => isTrue trivial
  | .counted _ => isTrue trivial

theorem Pc.OnNoted.imp {P P' : CString → Prop} {p : Pc} (himp : ∀ line, P line → P' line)
    (h : p.OnNoted P) : p.OnNoted P' := by
  cases p with
  | noted line => exact himp line h
  | idle => trivial
  | read record => trivial
  | counted record => trivial

/-- The packets a reader has made and not stored. -/
def Pc.held : Pc → List Record
  | .read record => [record]
  | .counted record => [record]
  | _ => []

/-- The dashboard: the state under the lock, the readers, the sender's next datagram,
the trace ids sent, the packets made and the packets stored. -/
structure Dashboard where
  demo : DemoState
  pc : Reader → Pc
  seq : Nat
  traces : List CString
  created : List Record
  stored : List Record

/-- The steps.  A reader starts on a line, which is about a datagram if it is an
event. -/
inductive DashboardAct where
  | send (rand : Nat) (extras : List Nat)
  | start (r : Reader) (line time : CString) (datagram : Nat)
  | count (r : Reader)
  | insert (r : Reader)
  | rates (r : Reader) (now : Rat)

/-! ## An event with its type alone -/

def plainLine : CString := lit "\x7b\"type\":\"packet\"\x7d"

def plainEvent : TcEvent :=
  ⟨some (lit "packet"), none, none, none, none, none, none, none, none, none, none⟩

/-- What `json.loads` makes of that line; other texts are left out. -/
def plainLoads (text : CString) : Option TcEvent := if text = plainLine then some plainEvent else none

/-! ## The system -/

namespace Dashboard

def init (started : Rat) (trafficSource : CString) : Dashboard where
  demo := DemoState.init started trafficSource
  pc := fun _ => .idle
  seq := 0
  traces := []
  created := []
  stored := []

/-- Every call has finished. -/
def Idle (s : Dashboard) : Prop := ∀ r, s.pc r = .idle

instance (s : Dashboard) : Decidable s.Idle := inferInstanceAs (Decidable (∀ r, s.pc r = .idle))

/-- One turn of the inner loop of `_send_loop`. -/
def send (s : Dashboard) (rand : Nat) (extras : List Nat) : Dashboard :=
  { s with
    demo := s.demo.recordSent s.seq (sentMetadata s.seq rand extras)
    seq := s.seq + 1
    traces := s.traces ++ [traceIdOf s.seq rand] }

/-- The packet of an event. -/
def recordOf (s : Dashboard) (r : Reader) (time : CString) (datagram : Nat) (event : TcEvent) :
    Record :=
  ⟨r, datagram, s.demo.readEvent time event⟩

def read (s : Dashboard) (r : Reader) (record : Record) : Dashboard :=
  { s with
    pc := Function.update s.pc r (.read record)
    created := s.created ++ [record] }

def note (s : Dashboard) (r : Reader) (line : CString) : Dashboard :=
  { s with
    demo := s.demo.noteLine line
    pc := Function.update s.pc r (.noted line) }

def count (s : Dashboard) (r : Reader) (record : Record) : Dashboard :=
  { s with
    demo := s.demo.countEvent
    pc := Function.update s.pc r (.counted record) }

def insert (s : Dashboard) (r : Reader) (record : Record) : Dashboard :=
  { s with
    demo := s.demo.addPacket record.packet
    pc := Function.update s.pc r .idle
    stored := s.stored ++ [record] }

def rates (s : Dashboard) (r : Reader) (line : CString) (now : Rat) : Dashboard :=
  { s with
    demo := s.demo.updateStats line now
    pc := Function.update s.pc r .idle }

/-- A step, where the thread that takes it is there. -/
def step (loads : CString → Option TcEvent) (s : Dashboard) : DashboardAct → Option Dashboard
  | .send rand extras => if Drawn s.seq rand extras then some (s.send rand extras) else none
  | .start r line time datagram =>
    match s.pc r with
    | .idle =>
      match lineEvent loads (r.handedOn line) with
      | some event => some (s.read r (s.recordOf r time datagram event))
      | none => some (s.note r (r.handedOn line))
    | _ => none
  | .count r =>
    match s.pc r with
    | .read record => some (s.count r record)
    | _ => none
  | .insert r =>
    match s.pc r with
    | .counted record => some (s.insert r record)
    | _ => none
  | .rates r now =>
    match s.pc r with
    | .noted line => some (s.rates r line now)
    | _ => none

variable {loads : CString → Option TcEvent} {s s' : Dashboard} {a : DashboardAct}

/-- What a step can do. -/
inductive Step (loads : CString → Option TcEvent) (s : Dashboard) :
    DashboardAct → Dashboard → Prop where
  | send (rand : Nat) (extras : List Nat) (hdrawn : Drawn s.seq rand extras) :
    Step loads s (.send rand extras) (s.send rand extras)
  | read (r : Reader) (line time : CString) (datagram : Nat) (event : TcEvent)
    (hpc : s.pc r = .idle) (hevent : lineEvent loads (r.handedOn line) = some event) :
    Step loads s (.start r line time datagram) (s.read r (s.recordOf r time datagram event))
  | note (r : Reader) (line time : CString) (datagram : Nat)
    (hpc : s.pc r = .idle) (hevent : lineEvent loads (r.handedOn line) = none) :
    Step loads s (.start r line time datagram) (s.note r (r.handedOn line))
  | count (r : Reader) (record : Record) (hpc : s.pc r = .read record) :
    Step loads s (.count r) (s.count r record)
  | insert (r : Reader) (record : Record) (hpc : s.pc r = .counted record) :
    Step loads s (.insert r) (s.insert r record)
  | rates (r : Reader) (line : CString) (now : Rat) (hpc : s.pc r = .noted line) :
    Step loads s (.rates r now) (s.rates r line now)

/-- **Every step is one of these.** -/
theorem step_cases (h : step loads s a = some s') : Step loads s a s' := by
  cases a with
  | send rand extras =>
    simp only [step] at h
    split at h
    · obtain rfl := Option.some.inj h
      exact .send rand extras ‹_›
    · cases h
  | start r line time datagram =>
    simp only [step] at h
    split at h
    · rename_i hpc
      split at h
      · obtain rfl := Option.some.inj h
        exact .read r line time datagram _ hpc ‹_›
      · obtain rfl := Option.some.inj h
        exact .note r line time datagram hpc ‹_›
    · cases h
  | count r =>
    simp only [step] at h
    split at h
    · obtain rfl := Option.some.inj h
      exact .count r _ ‹_›
    · cases h
  | insert r =>
    simp only [step] at h
    split at h
    · obtain rfl := Option.some.inj h
      exact .insert r _ ‹_›
    · cases h
  | rates r now =>
    simp only [step] at h
    split at h
    · obtain rfl := Option.some.inj h
      exact .rates r _ now ‹_›
    · cases h

/-- If the step starts on an event, the condition holds of its reader and of the
datagram. -/
def OnEvent (loads : CString → Option TcEvent) (P : Reader → Nat → Prop) : DashboardAct → Prop
  | .start r line _ datagram => lineEvent loads (r.handedOn line) ≠ none → P r datagram
  | _ => True

instance (P : Reader → Nat → Prop) [∀ r datagram, Decidable (P r datagram)] :
    (a : DashboardAct) → Decidable (OnEvent loads P a)
  | .start r line _ datagram =>
    inferInstanceAs (Decidable (lineEvent loads (r.handedOn line) ≠ none → P r datagram))
  | .send _ _ => isTrue trivial
  | .count _ => isTrue trivial
  | .insert _ => isTrue trivial
  | .rates _ _ => isTrue trivial

/-- A reader works through an event with its type alone. -/
def deliver (r : Reader) (datagram : Nat) : List DashboardAct :=
  [.start r plainLine [] datagram, .count r, .insert r]

/-! ## Packets made and packets stored -/

/-- The packets made and not stored. -/
def inFlight (s : Dashboard) : List Record := (s.pc .encrypt).held ++ (s.pc .decrypt).held

/-- A reader that moves on changes its own part. -/
theorem inFlight_update {t : Dashboard} {r : Reader} {p : Pc}
    (h : t.pc = Function.update s.pc r p) :
    List.Perm ((s.pc r).held ++ t.inFlight) (p.held ++ s.inFlight) := by
  rw [inFlight, inFlight, h]
  cases r with
  | encrypt =>
    rw [Function.update_self, Function.update_of_ne (by decide)]
    exact List.perm_append_comm_assoc _ _ _
  | decrypt =>
    rw [Function.update_self, Function.update_of_ne (by decide), ← List.append_assoc]
    exact List.perm_append_comm.trans (List.perm_append_comm.append_left _)

theorem inFlight_of_idle (h : s.Idle) : s.inFlight = [] := by
  rw [inFlight, h, h]
  rfl

/-- A packet that is made is in flight or stored, and once. -/
def Kept (s : Dashboard) : Prop := List.Perm s.created (s.stored ++ s.inFlight)

theorem kept_init (started : Rat) (trafficSource : CString) : (init started trafficSource).Kept :=
  List.Perm.nil

/-- What a reader takes up and what it lays down. -/
theorem Kept.move {t : Dashboard} {r : Reader} {p : Pc} {made out : List Record} (hs : s.Kept)
    (hpc : t.pc = Function.update s.pc r p) (hcreated : t.created = s.created ++ made)
    (hstored : t.stored = s.stored ++ out)
    (hbalance : (s.pc r).held ++ made = out ++ p.held) : t.Kept := by
  classical
  have hflight := inFlight_update hpc
  rw [Kept, List.perm_iff_count] at hs
  rw [List.perm_iff_count] at hflight
  rw [Kept, List.perm_iff_count, hcreated, hstored]
  intro record
  have hbefore := hs record
  have hother := hflight record
  have hboth := congrArg (List.count record) hbalance
  simp only [List.count_append] at *
  omega

/-- **Every step keeps the packets.** -/
theorem Kept.step (hs : s.Kept) (h : step loads s a = some s') : s'.Kept := by
  cases step_cases h with
  | send rand extras => exact hs
  | read r line time datagram event hpc =>
    exact hs.move rfl rfl (List.append_nil _).symm (by rw [hpc]; rfl)
  | note r line time datagram hpc =>
    exact hs.move rfl (List.append_nil _).symm (List.append_nil _).symm (by rw [hpc]; rfl)
  | count r record hpc =>
    exact hs.move rfl (List.append_nil _).symm (List.append_nil _).symm (by rw [hpc]; rfl)
  | insert r record hpc => exact hs.move rfl (List.append_nil _).symm rfl (by rw [hpc]; rfl)
  | rates r line now hpc =>
    exact hs.move rfl (List.append_nil _).symm (List.append_nil _).symm (by rw [hpc]; rfl)

theorem Kept.run {acts : List DashboardAct} (hs : s.Kept)
    (h : run (Dashboard.step loads) s acts = some s') : s'.Kept :=
  run_invariant (fun _ _ _ hm hstep => hm.step hstep) hs h

/-- Once every call has finished, what was made is stored. -/
theorem Kept.perm_of_idle (hs : s.Kept) (h : s.Idle) : List.Perm s.created s.stored := by
  rw [Kept, inFlight_of_idle h, List.append_nil] at hs
  exact hs

end Dashboard
end Ebaf
