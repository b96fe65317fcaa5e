import Ebaf.Channel
import Ebaf.FilterMeaning
import Ebaf.PacketTable
import Ebaf.Snapshot

/-! # Watching the dashboard

A page asks for snapshots while the threads of the dashboard go on.  The requests are
served at any time, their answers arrive in any order or not at all, and in between
the user clicks, types and pauses.
-/
namespace Ebaf
open CStrings Runs JsonText TextScan Selection BoundedLog

/-! ## The system -/

/-- The dashboard, a page, the requests not served yet and the bodies on the way. -/
structure WatchedDemo where
  live : LiveDemo
  page : Page
  asked : Nat
  answers : List CString

/-- The steps: one of the dashboard's threads, the page is loaded, its timer runs, the
user starts it, a request is served or fails, an answer arrives or is lost, and what the
user does to the table. -/
inductive WatchAct where
  | live (a : LiveAct)
  | load
  | timer
  | start
  | serve (info : DemoInfo) (keys : List CString)
  | fail
  | arrive (i : Nat)
  | lose (i : Nat)
  | user (u : UserAct)

namespace WatchedDemo

def init (started : Rat) (trafficSource : CString) : WatchedDemo where
  live := LiveDemo.init started trafficSource
  page := Page.init
  asked := 0
  answers := []

/-- `refresh`, up to the request. -/
def refresh (s : WatchedDemo) : WatchedDemo :=
  if s.page.autoRefresh then { s with asked := s.asked + 1 } else s

def step (loads : CString → Option TcEvent) (js : Runtime Rat) (s : WatchedDemo) :
    WatchAct → Option WatchedDemo
  | .live a => (s.live.step loads a).map fun live => { s with live := live }
  | .load => some (refresh { s with page := Page.init, asked := 0, answers := [] })
  | .timer => some s.refresh
  | .start => some (refresh { s with page := { s.page with autoRefresh := true } })
  | .serve info keys =>
    if 0 < s.asked then
      (doGet info keys s.live (lit "/api/snapshot")).map fun response =>
        { s with asked := s.asked - 1, answers := s.answers ++ [response.body] }
    else none
  | .fail => if 0 < s.asked then some { s with asked := s.asked - 1 } else none
  | .arrive i => (s.answers[i]?).map fun body =>
    { s with page := s.page.receive js body, answers := s.answers.eraseIdx i }
  | .lose i => if i < s.answers.length then some { s with answers := s.answers.eraseIdx i } else none
  | .user u => (s.page.user js u).map fun page => { s with page := page }

variable {loads : CString → Option TcEvent} {js : Runtime Rat} {s s' : WatchedDemo} {a : WatchAct}
  {acts : List WatchAct} {n : Int}

/-- What a step can do. -/
inductive Step (loads : CString → Option TcEvent) (js : Runtime Rat) (s : WatchedDemo) :
    WatchAct → WatchedDemo → Prop where
  | live (a : LiveAct) (live : LiveDemo) (hstep : s.live.step loads a = some live) :
    Step loads js s (.live a) { s with live := live }
  | load : Step loads js s .load (refresh { s with page := Page.init, asked := 0, answers := [] })
  | timer : Step loads js s .timer s.refresh
  | start : Step loads js s .start (refresh { s with page := { s.page with autoRefresh := true } })
  | serve (info : DemoInfo) (keys : List CString) :
    Step loads js s (.serve info keys)
      { s with
        asked := s.asked - 1
        answers := s.answers ++ [(sendJson (s.live.snapshot info keys)).body] }
  | fail : Step loads js s .fail { s with asked := s.asked - 1 }
  | arrive (i : Nat) (body : CString) (hbody : s.answers[i]? = some body) :
    Step loads js s (.arrive i)
      { s with page := s.page.receive js body, answers := s.answers.eraseIdx i }
  | lose (i : Nat) : Step loads js s (.lose i) { s with answers := s.answers.eraseIdx i }
  | user (u : UserAct) (page : Page) (huser : s.page.user js u = some page) :
    Step loads js s (.user u) { s with page := page }

/-- **Every step is one of these.** -/
theorem step_cases (h : step loads js s a = some s') : Step loads js s a s' := by
  cases a with
  | live a =>
    obtain ⟨live, hlive, rfl⟩ := Option.map_eq_some_iff.mp h
    exact .live a live hlive
  | load =>
    obtain rfl := Option.some.inj h
    exact .load
  | timer =>
    obtain rfl := Option.some.inj h
    exact .timer
  | start =>
    obtain rfl := Option.some.inj h
    exact .start
  | serve info keys =>
    simp only [step] at h
    split at h
    · rw [doGet, if_pos (Or.inl rfl)] at h
      obtain rfl := Option.some.inj h
      exact .serve info keys
    · cases h
  | fail =>
    simp only [step] at h
    split at h
    · obtain rfl := Option.some.inj h
      exact .fail
    · cases h
  | arrive i =>
    obtain ⟨body, hbody, rfl⟩ := Option.map_eq_some_iff.mp h
    exact .arrive i body hbody
  | lose i =>
    simp only [step] at h
    split at h
    · obtain rfl := Option.some.inj h
      exact .lose i
    · cases h
  | user u =>
    obtain ⟨page, hpage, rfl⟩ := Option.map_eq_some_iff.mp h
    exact .user u page hpage

/-! ## What the steps say -/

/-- How many packets are stored, how many were when each answer on the way was taken, and
when the last one that has arrived since the page was loaded was, and the filter texts. -/
structure WatchLog where
  stored : Nat
  answers : List Nat
  shown : Nat
  texts : Page.FilterTexts

namespace WatchLog

def init : WatchLog where
  stored := 0
  answers := []
  shown := 0
  texts := ⟨Page.init.filterInput, Page.init.filterInput⟩

/-- What a step adds. -/
def after (log : WatchLog) : WatchAct → WatchLog
  | .live (.board (.insert _)) => { log with stored := log.stored + 1 }
  | .load => { init with stored := log.stored }
  | .serve _ _ => { log with answers := log.answers ++ [log.stored] }
  | .arrive i =>
    { log with
      answers := log.answers.eraseIdx i
      shown := (log.answers[i]?).getD log.shown
      texts := ⟨log.texts.typed, log.texts.typed⟩ }
  | .lose i => { log with answers := log.answers.eraseIdx i }
  | .user u => { log with texts := log.texts.after u }
  | .live _ | .timer | .start | .fail => log

/-- The log of a run. -/
def ofActs (acts : List WatchAct) : WatchLog := acts.foldl after init

theorem ofActs_concat (acts : List WatchAct) (a : WatchAct) :
    ofActs (acts ++ [a]) = (ofActs acts).after a := by
  rw [ofActs, List.foldl_append]
  rfl

end WatchLog

/-! ## What the page shows -/

/-- The packets of a snapshot, by what was stored when it was taken. -/
def newestPackets (stored : List Record) : List Value :=
  (((stored.map Record.packet).reverse).take 80).map DemoPacket.value

theorem length_newestPackets (stored : List Record) : (newestPackets stored).length ≤ 80 := by
  rw [newestPackets, List.length_map]
  exact List.length_take_le _ _

/-- The packets of an answer are the newest of what was stored when it was taken. -/
theorem parse_answer (info : DemoInfo) (keys : List CString) {live : LiveDemo}
    (h : live.board.Shown) :
    ∃ data, parse (sendJson (live.snapshot info keys)).body = some data ∧
      Page.packetsOf data = newestPackets live.board.stored := by
  refine ⟨_, parse_sendJson (whole_snapshot info keys live), ?_⟩
  rw [newestPackets, ← h]
  rfl

/-- An answer taken when the first `n` packets were stored. -/
def AnswerOf (stored : List Record) (n : Nat) (body : CString) : Prop :=
  n ≤ stored.length ∧
    ∃ data, parse body = some data ∧ Page.packetsOf data = newestPackets (stored.take n)

theorem take_of_grows {stored stored' : List Record} {n : Nat} (hgrows : stored <+: stored')
    (hn : n ≤ stored.length) : stored'.take n = stored.take n := by
  obtain ⟨more, rfl⟩ := hgrows
  exact List.take_append_of_le_length hn

theorem AnswerOf.mono {stored stored' : List Record} {n : Nat} {body : CString}
    (h : AnswerOf stored n body) (hgrows : stored <+: stored') : AnswerOf stored' n body := by
  obtain ⟨hn, hdata⟩ := h
  rw [← take_of_grows hgrows hn] at hdata
  exact ⟨hn.trans hgrows.length_le, hdata⟩

/-- The steps of the dashboard only add to what is stored. -/
theorem stored_grows {live live' : LiveDemo} {a : LiveAct} (h : live.step loads a = some live') :
    live.board.stored <+: live'.board.stored := by
  cases LiveDemo.step_cases h with
  | board a board hstep =>
    cases hstep with
    | insert r record hpc => exact List.prefix_append _ _
    | send rand extras hdrawn => exact List.prefix_rfl
    | read r line time datagram event hpc hevent => exact List.prefix_rfl
    | note r line time datagram hpc hevent => exact List.prefix_rfl
    | count r record hpc => exact List.prefix_rfl
    | rates r line now hpc => exact List.prefix_rfl
  | receiver line => exact List.prefix_rfl
  | ffmpeg line => exact List.prefix_rfl

/-- An insertion stores a packet, and nothing else does. -/
theorem after_live {live live' : LiveDemo} {a : LiveAct} (h : live.step loads a = some live')
    {log : WatchLog} (hlog : log.stored = live.board.stored.length) :
    log.after (.live a) = { log with stored := live'.board.stored.length } := by
  have hsame : log = { log with stored := live.board.stored.length } := by rw [← hlog]
  cases LiveDemo.step_cases h with
  | board a board hstep =>
    cases hstep with
    | insert r record hpc =>
      show { log with stored := log.stored + 1 } =
        { log with stored := (live.board.stored ++ [record]).length }
      rw [hlog, List.length_append, List.length_singleton]
    | send rand extras hdrawn => exact hsame
    | read r line time datagram event hpc hevent => exact hsame
    | note r line time datagram hpc hevent => exact hsame
    | count r record hpc => exact hsame
    | rates r line now hpc => exact hsame
  | receiver line => exact hsame
  | ffmpeg line => exact hsame

/-- **The answers and the page are those the log tells of.** -/
structure Follows (js : Runtime Rat) (log : WatchLog) (s : WatchedDemo) : Prop where
  shown : s.live.board.Shown
  stored : log.stored = s.live.board.stored.length
  answers : List.Forall₂ (AnswerOf s.live.board.stored) log.answers s.answers
  within : log.shown ≤ s.live.board.stored.length
  packets : s.page.allPackets = newestPackets (s.live.board.stored.take log.shown)
  rendered : s.page.Rendered js log.texts

theorem Follows.refresh {log : WatchLog} (h : s.Follows js log) : s.refresh.Follows js log := by
  rw [WatchedDemo.refresh]
  split
  · exact ⟨h.shown, h.stored, h.answers, h.within, h.packets, h.rendered⟩
  · exact h

/-- **Every step keeps the page to its snapshots.** -/
theorem Follows.step {log : WatchLog} (h : s.Follows js log)
    (hstep : WatchedDemo.step loads js s a = some s') : s'.Follows js (log.after a) := by
  cases step_cases hstep with
  | live a live hlive =>
    have hgrows := stored_grows hlive
    rw [after_live hlive h.stored]
    refine ⟨LiveDemo.shown_step h.shown hlive, rfl, h.answers.imp fun n body ha => ha.mono hgrows,
      h.within.trans hgrows.length_le, ?_, h.rendered⟩
    exact h.packets.trans (congrArg newestPackets (take_of_grows hgrows h.within).symm)
  | load =>
    -- a new page knows of no answer, and earlier ones are not for it
    exact Follows.refresh ⟨h.shown, h.stored, .nil, Nat.zero_le _, rfl, Page.rendered_init js⟩
  | timer => exact h.refresh
  | start =>
    exact Follows.refresh ⟨h.shown, h.stored, h.answers, h.within, h.packets,
      ⟨h.rendered.input, h.rendered.rows, h.rendered.on⟩⟩
  | serve info keys =>
    refine ⟨h.shown, h.stored, List.rel_append h.answers (.cons ⟨Nat.le_of_eq h.stored, ?_⟩ .nil),
      h.within, h.packets, h.rendered⟩
    rw [h.stored, List.take_length]
    exact parse_answer info keys h.shown
  | fail => exact ⟨h.shown, h.stored, h.answers, h.within, h.packets, h.rendered⟩
  | arrive i body hbody =>
    -- the page now shows what was stored when this answer was taken
    obtain ⟨n, hn, hwithin, data, hparse, hpackets⟩ := Channel.forall₂_getElem? h.answers hbody
    have hreceive : s.page.receive js body =
        Page.renderRows js { s.page with allPackets := Page.packetsOf data } := by
      rw [Page.receive, hparse]
    have hrendered := Page.rendered_renderRows js { s.page with allPackets := Page.packetsOf data }
    rw [WatchLog.after, hn, Option.getD_some, ← h.rendered.input, hreceive]
    exact ⟨h.shown, h.stored, Channel.forall₂_eraseIdx h.answers i, hwithin, hpackets, hrendered⟩
  | lose i =>
    exact ⟨h.shown, h.stored, Channel.forall₂_eraseIdx h.answers i, h.within, h.packets, h.rendered⟩
  | user u page huser =>
    obtain ⟨hrendered, hpackets⟩ := h.rendered.user huser
    exact ⟨h.shown, h.stored, h.answers, h.within, hpackets.trans h.packets, hrendered⟩

theorem follows_init (js : Runtime Rat) (started : Rat) (trafficSource : CString) :
    (init started trafficSource).Follows js .init :=
  ⟨rfl, rfl, .nil, Nat.le_refl _, rfl, Page.rendered_init js⟩

/-- **In every run the page shows what its steps say.** -/
theorem follows_run {started : Rat} {trafficSource : CString}
    (h : run (WatchedDemo.step loads js) (init started trafficSource) acts = some s) :
    s.Follows js (.ofActs acts) := by
  have hinit : (init started trafficSource).Follows js (.ofActs []) :=
    follows_init js started trafficSource
  refine run_history (J := fun acts s => s.Follows js (.ofActs acts)) ?_ hinit h
  intro before m a m' hm hstep
  rw [WatchLog.ofActs_concat]
  exact Follows.step hm hstep

/-- The rows: of the newest packets stored when the answer that arrived last was taken, those
that pass the text they were rendered from. -/
structure Displays (js : Runtime Rat) (log : WatchLog) (s : WatchedDemo) : Prop where
  within : log.shown ≤ s.live.board.stored.length
  packets : s.page.rows.map Row.packet =
    (newestPackets (s.live.board.stored.take log.shown)).filter (showsPacket js log.texts.rendered)
  numbers : ∀ row ∈ s.page.rows, ∃ record ∈ s.live.board.stored,
    row.packet = record.packet.value ∧ row.no = record.packet.seq + 1
  selected : s.page.rows = [] ∨ ∃ row, s.page.selected = some row ∧ s.page.cursor.key = some row.seq

theorem packetSeq_value (packet : DemoPacket) : packetSeq packet.value = some (packet.seq : Int) := by
  have hmember : packet.value.member (lit "seq") = some (.int packet.seq) := rfl
  rw [packetSeq, hmember]

theorem Follows.displays {log : WatchLog} (h : s.Follows js log) : s.Displays js log := by
  have hrows := h.rendered.rows
  have hall : s.page.rows.map Row.packet =
      (newestPackets (s.live.board.stored.take log.shown)).filter
        (showsPacket js log.texts.rendered) := by
    rw [hrows, Page.map_packet_rowsOf, h.packets]
    refine List.take_of_length_le ((List.length_filter_le _ _).trans ?_)
    exact (length_newestPackets _).trans (by decide)
  refine ⟨h.within, hall, fun row hrow => ?_, h.rendered.on⟩
  have hmem : row.packet ∈ newestPackets (s.live.board.stored.take log.shown) := by
    have hshown := List.mem_map_of_mem (f := Row.packet) hrow
    rw [hall] at hshown
    exact (List.mem_filter.mp hshown).1
  obtain ⟨packet, hpacket, hvalue⟩ := List.mem_map.mp hmem
  obtain ⟨record, hrecord, rfl⟩ :=
    List.mem_map.mp (List.mem_reverse.mp (List.mem_of_mem_take hpacket))
  refine ⟨record, List.mem_of_mem_take hrecord, hvalue.symm, ?_⟩
  rw [hrows] at hrow
  apply Page.no_of_seq hrow
  rw [Row.seq, ← hvalue, packetSeq_value]

theorem Displays.seq_eq {log : WatchLog} (h : s.Displays js log) {row : Row}
    (hrow : row ∈ s.page.rows) : ∃ record ∈ s.live.board.stored,
      row.packet = record.packet.value ∧ row.seq = some (record.packet.seq : Int) := by
  obtain ⟨record, hrecord, hvalue, -⟩ := h.numbers row hrow
  refine ⟨record, hrecord, hvalue, ?_⟩
  rw [Row.seq, hvalue, packetSeq_value]

/-! ## Left alone -/

/-- The user chooses no row and no filter, and the page is not loaded anew. -/
def HandsOff : WatchAct → Prop
  | .load => False
  | .user (.typed _) => True
  | .user .pause => True
  | .user _ => False
  | _ => True

/-- A row with the number is selected. -/
def Selects (n : Int) (s : WatchedDemo) : Prop := s.page.cursor.Selects Row.seq s.page.rows (some n)

/-- An answer that arrives has a packet with the number that passes the filter. -/
def KeepsShowing (js : Runtime Rat) (n : Int) (s : WatchedDemo) : WatchAct → Prop
  | .arrive i => ∀ body data, s.answers[i]? = some body → parse body = some data →
    ∃ packet ∈ Page.packetsOf data, showsPacket js s.page.filterInput packet = true ∧
      packetSeq packet = some n
  | _ => True

/-- **A step the user has no hand in.** -/
theorem selects_step_iff {log : WatchLog} (h : s.Follows js log) (hs : s.Selects n) (ha : HandsOff a)
    (hstep : WatchedDemo.step loads js s a = some s') : s'.Selects n ↔ KeepsShowing js n s a := by
  have hrefresh : s.refresh.Selects n := by
    rw [WatchedDemo.refresh]
    split <;> exact hs
  cases step_cases hstep with
  | live a live hlive => exact ⟨fun _ => trivial, fun _ => hs⟩
  | load => exact absurd ha id
  | timer => exact ⟨fun _ => trivial, fun _ => hrefresh⟩
  | start => exact ⟨fun _ => trivial, fun _ => hs⟩
  | serve info keys => exact ⟨fun _ => trivial, fun _ => hs⟩
  | fail => exact ⟨fun _ => trivial, fun _ => hs⟩
  | lose i => exact ⟨fun _ => trivial, fun _ => hs⟩
  | arrive i body hbody =>
    -- a snapshot is short enough that the page shows all rows that pass
    obtain ⟨n', -, -, data, hparse, hpackets⟩ := Channel.forall₂_getElem? h.answers hbody
    have hlen : (Page.packetsOf data).length ≤ 160 := by
      rw [hpackets]
      exact (length_newestPackets _).trans (by decide)
    refine (Page.selects_receive_iff hparse hlen hs).trans ⟨fun hshows body' data' hbody' hparse' => ?_,
      fun hall => hall body data hbody hparse⟩
    obtain rfl := Option.some.inj (hbody.symm.trans hbody')
    obtain rfl := Option.some.inj (hparse.symm.trans hparse')
    exact hshows
  | user u page huser =>
    cases u with
    | typed text =>
      obtain rfl := Option.some.inj huser
      exact ⟨fun _ => trivial, fun _ => hs⟩
    | pause =>
      obtain rfl := Option.some.inj huser
      exact ⟨fun _ => trivial, fun _ => hs⟩
    | click idx => exact absurd ha id
    | applyFilter => exact absurd ha id
    | setFilter value => exact absurd ha id
    | prevPacket => exact absurd ha id
    | nextPacket => exact absurd ha id
    | reset => exact absurd ha id

/-! ## Numbers -/

/-- No reader takes the counter while another one has taken it and not advanced it. -/
def CountedFirst (loads : CString → Option TcEvent) (s : WatchedDemo) : WatchAct → Prop
  | .live (.board a) => Dashboard.CountedFirst loads s.live.board a
  | _ => True

/-- The packets made so far have different numbers, and what is stored was made. -/
structure Distinct (s : WatchedDemo) : Prop where
  numbered : SplitCounter.Numbered s.live.board.counter
  kept : s.live.board.Kept

theorem distinct_step (h : s.Distinct) (ha : CountedFirst loads s a)
    (hstep : WatchedDemo.step loads js s a = some s') : s'.Distinct := by
  have hrefresh : s.refresh.Distinct := by
    rw [WatchedDemo.refresh]
    split <;> exact ⟨h.numbered, h.kept⟩
  cases step_cases hstep with
  | live a live hlive =>
    refine ⟨?_, LiveDemo.kept_step h.kept hlive⟩
    cases a with
    | board a =>
      obtain ⟨board, hboard, rfl⟩ := Option.map_eq_some_iff.mp hlive
      exact Dashboard.numbered_step h.numbered ha hboard
    | receiver line =>
      obtain rfl := Option.some.inj hlive
      exact h.numbered
    | ffmpeg line =>
      obtain rfl := Option.some.inj hlive
      exact h.numbered
  | timer => exact hrefresh
  | load => exact ⟨h.numbered, h.kept⟩
  | start => exact ⟨h.numbered, h.kept⟩
  | serve info keys => exact ⟨h.numbered, h.kept⟩
  | fail => exact ⟨h.numbered, h.kept⟩
  | arrive i body hbody => exact ⟨h.numbered, h.kept⟩
  | lose i => exact ⟨h.numbered, h.kept⟩
  | user u page huser => exact ⟨h.numbered, h.kept⟩

theorem distinct_run {started : Rat} {trafficSource : CString}
    (hfirst : Along (WatchedDemo.step loads js) (CountedFirst loads) (init started trafficSource) acts)
    (h : run (WatchedDemo.step loads js) (init started trafficSource) acts = some s) : s.Distinct :=
  run_invariant_along (fun _ _ _ hm ha hstep => distinct_step hm ha hstep)
    ⟨Dashboard.numbered_counter_init started trafficSource,
      Dashboard.kept_init started trafficSource⟩ hfirst h

theorem Distinct.nodup (h : s.Distinct) :
    (s.live.board.stored.map fun record => record.packet.seq).Nodup := by
  have hperm := h.kept.map fun record => record.packet.seq
  have hall := hperm.nodup_iff.mp h.numbered.nodup
  rw [List.map_append] at hall
  exact hall.of_append_left

/-- No two rows have one number. -/
theorem Distinct.rows_nodup {log : WatchLog} (h : s.Distinct) (hs : s.Displays js log) :
    (s.page.rows.map Row.seq).Nodup := by
  let before := s.live.board.stored.take log.shown
  have hseqs : (newestPackets before).map packetSeq =
      (((before.map fun record => record.packet.seq).reverse).take 80).map
        fun seq : Nat => some (seq : Int) := by
    have hnumber : (packetSeq ∘ DemoPacket.value) ∘ Record.packet =
        (fun seq : Nat => some (seq : Int)) ∘ fun record => record.packet.seq :=
      funext fun record => packetSeq_value record.packet
    simp only [newestPackets, List.map_take, List.map_reverse, List.map_map]
    rw [← Function.comp_assoc, hnumber]
  have hbefore' : (before.map fun record => record.packet.seq).Nodup :=
    h.nodup.sublist ((List.take_sublist _ _).map _)
  have hnewest : ((newestPackets before).map packetSeq).Nodup := by
    rw [hseqs]
    refine List.Nodup.map (fun m n hmn => ?_) ((List.nodup_reverse.mpr hbefore').sublist
      (List.take_sublist _ _))
    exact Int.ofNat.inj (Option.some.inj hmn)
  have hrows : s.page.rows.map Row.seq = (s.page.rows.map Row.packet).map packetSeq := by
    rw [List.map_map]
    rfl
  rw [hrows, hs.packets]
  exact hnewest.sublist (List.filter_sublist.map _)

/-- The rows of two moments that have one number show one packet. -/
theorem Distinct.packet_eq {log log' : WatchLog} (h : s'.Distinct) (hs : s.Displays js log)
    (hs' : s'.Displays js log')
    (hgrows : s.live.board.stored <+: s'.live.board.stored) {row row' : Row}
    (hrow : row ∈ s.page.rows) (hrow' : row' ∈ s'.page.rows) (hseq : row.seq = row'.seq) :
    row.packet = row'.packet := by
  obtain ⟨record, hrecord, hvalue, hnumber⟩ := hs.seq_eq hrow
  obtain ⟨record', hrecord', hvalue', hnumber'⟩ := hs'.seq_eq hrow'
  have hsame : record.packet.seq = record'.packet.seq := by
    rw [hnumber, hnumber'] at hseq
    exact Int.ofNat.inj (Option.some.inj hseq)
  have heq : record = record' :=
    List.inj_on_of_nodup_map h.nodup (hgrows.subset hrecord) hrecord' hsame
  rw [hvalue, hvalue', heq]

theorem stored_grows_run {more : List WatchAct} (h : run (WatchedDemo.step loads js) s more = some s') :
    s.live.board.stored <+: s'.live.board.stored := by
  refine run_invariant (I := fun t => s.live.board.stored <+: t.live.board.stored)
    (fun t a t' ht hstep => ?_) List.prefix_rfl h
  have hrefresh : t.refresh.live = t.live := by
    rw [WatchedDemo.refresh]
    split <;> rfl
  cases step_cases hstep with
  | live a live hlive => exact ht.trans (stored_grows hlive)
  | timer => rwa [hrefresh]
  | load => exact ht
  | start => exact ht
  | serve info keys => exact ht
  | fail => exact ht
  | arrive i body hbody => exact ht
  | lose i => exact ht
  | user u page huser => exact ht

/-! ## A whole run -/

/-- **What the page shows and what stays selected.**  Whatever threads, requests and the
user do, and in whatever order, the rows are the newest packets stored when the answer that
arrived last was taken that pass the text that stood in the filter input when they were last
rendered, each with its number, and if there are any one of them is selected.
Moving to a row selects it unless a row above it has its number.  While the user has no
hand in it a number stays selected exactly as long as every answer has a packet with it
that passes the filter; and if no reader takes the counter before the other one has
advanced it, the numbers differ and one number is always one packet. -/
theorem page_keeps_selection (loads : CString → Option TcEvent) (js : Runtime Rat) (started : Rat)
    (trafficSource : CString) (acts : List WatchAct) (s : WatchedDemo)
    (hrun : run (step loads js) (init started trafficSource) acts = some s) :
    s.Displays js (.ofActs acts) ∧
    (s.page.rows = Page.rowsOf js s.page.filterInput s.page.allPackets →
      ∀ i (hi : i < s.page.rows.length), (s.page.moveTo js i).cursor.index = i ↔
        ∀ j (hj : j < i), (s.page.rows.get ⟨j, Nat.lt_trans hj hi⟩).seq ≠ s.page.rows[i].seq) ∧
    (∀ n more s', s.Selects n → (∀ a ∈ more, HandsOff a) →
      run (step loads js) s more = some s' →
      (Always (step loads js) (Selects n) s more ↔
        Along (step loads js) (KeepsShowing js n) s more)) ∧
    (Along (step loads js) (CountedFirst loads) (init started trafficSource) acts →
      (s.page.rows.map Row.seq).Nodup ∧
      ∀ more s', run (step loads js) s more = some s' →
        Along (step loads js) (CountedFirst loads) s more →
        ∀ row ∈ s.page.rows, ∀ row' ∈ s'.page.rows, row.seq = row'.seq →
          row.packet = row'.packet) := by
  have hs := follows_run hrun
  have hdisplays := hs.displays
  refine ⟨hdisplays, fun hrows i hi => ?_, fun n more s' hselects hands hmore => ?_,
    fun hfirst => ?_⟩
  · refine Page.index_moveTo_iff hrows (fun row hrow => ?_) hi
    obtain ⟨record, -, -, hseq⟩ := hdisplays.seq_eq hrow
    rw [hseq]
    exact Option.some_ne_none _
  · exact always_iff_along_of (I := fun s => ∃ log, s.Follows js log)
      (fun _ _ _ ⟨_, hI⟩ hQ ha hstep => selects_step_iff hI hQ ha hstep)
      (fun _ _ _ ⟨_, hI⟩ hstep => ⟨_, hI.step hstep⟩) ⟨_, hs⟩ hselects hands hmore
  · -- numbers are given once, and stored packets stay stored
    have hdistinct := distinct_run hfirst hrun
    refine ⟨hdistinct.rows_nodup hdisplays, fun more s' hmore hfirst' row hrow row' hrow' hseq => ?_⟩
    have hs' : s'.Follows js (.ofActs (acts ++ more)) := follows_run ((run_append hrun).trans hmore)
    have hdistinct' : s'.Distinct :=
      run_invariant_along (fun _ _ _ hm ha hstep => distinct_step hm ha hstep) hdistinct hfirst' hmore
    exact hdistinct'.packet_eq hdisplays hs'.displays (stored_grows_run hmore) hrow hrow' hseq

/-- A runtime for ASCII text, whose numbers are printed as fractions. -/
def rationalRuntime : Runtime Rat where
  toLowerCase := asciiRuntime.toLowerCase
  lower_ascii := asciiRuntime.lower_ascii
  number := fun digits => (asciiRuntime.number digits : Rat)
  numberText := fun q => q.num.repr.toList ++ (if q.den = 1 then [] else '/' :: q.den.repr.toList)

/-- An event is shown and selected, the filter is cleared without being applied, and the
next snapshot is on its way while a second event comes in. -/
def twoSnapshots : List WatchAct :=
  (Dashboard.deliver .encrypt 0).map (fun a => .live (.board a)) ++
    [.load, .serve ⟨lit "running", [], lit "ebafdh1", 3, some 7, []⟩ [lit "seen"], .arrive 0,
      .user .nextPacket, .timer, .user (.typed []),
      .serve ⟨lit "running", [], lit "ebafdh1", 4, some 7, []⟩ [lit "seen"]] ++
    (Dashboard.deliver .decrypt 0).map (fun a => .live (.board a)) ++ [.arrive 0]

instance (s : WatchedDemo) : (a : WatchAct) → Decidable (CountedFirst loads s a)
  | .live (.board a) => inferInstanceAs (Decidable (Dashboard.CountedFirst loads s.live.board a))
  | .live (.receiver _) | .live (.ffmpeg _) | .load | .timer | .start | .serve _ _ | .fail
  | .arrive _ | .lose _ | .user _ => isTrue trivial

theorem page_keeps_selection_of_two : ∃ s,
    run (step plainLoads rationalRuntime) (init 0 []) twoSnapshots = some s ∧
    (WatchLog.ofActs twoSnapshots).shown = 1 ∧ s.page.rows.length = 1 ∧
    s.Displays rationalRuntime (.ofActs twoSnapshots) ∧ (s.page.rows.map Row.seq).Nodup := by
  have hfirst : Along (step plainLoads rationalRuntime) (CountedFirst plainLoads) (init 0 [])
      twoSnapshots := by
    decide +kernel
  have hend : (run (step plainLoads rationalRuntime) (init 0 []) twoSnapshots).any (fun s =>
      s.page.rows.length = 1) = true := by
    decide +kernel
  obtain ⟨s, hrun, hrows⟩ := (Option.any_eq_true _ _).mp hend
  obtain ⟨hdisplays, -, -, hnumbers⟩ :=
    page_keeps_selection plainLoads rationalRuntime 0 [] twoSnapshots s hrun
  exact ⟨s, hrun, by decide, of_decide_eq_true hrows, hdisplays, (hnumbers hfirst).1⟩

end WatchedDemo
end Ebaf
