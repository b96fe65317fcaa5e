import Ebaf.ChatLink
import Ebaf.LogReaders

/-! # The packet proof

The chat test runs `main` on two hosts, one that encrypts and one that decrypts, and
prints the events from the logs of both.  `packet_proof.py` takes the first sample of each
kind: the first body on the wire should not be the plain text, the first one decrypted
should.  Whatever happened on the way, what it reports is what it says.
-/
namespace Ebaf
open ByteWindow CStrings EarlyExit Runs JsonText

/-! ## The scripts -/

/-- `PLAINTEXT` -/
def proofPlaintext : CString := lit "hello real app"

/-- `PLAINTEXT_PADDED_HEX` -/
def plaintextPaddedHex : CString := hexText (proofPlaintext ++ [2, 2])

/-- The result of `build_proof`, without the time. -/
structure PacketProof where
  plaintext : CString
  plaintextPaddedHex : CString
  encryptedSampleHex : CString
  decryptedSampleHex : CString
  ciphertextDiffers : Bool
  decryptMatches : Bool

/-- The sample of an event is taken if it is the first one of the action; a sample that
is not a string is not represented. -/
def takeSample (action sample : CString) (event : Value) : CString :=
  if strMember event (lit "action") = some action ∧ sample = [] then
    (strMember event (lit "sample")).getD []
  else sample

/-- `build_proof`; without a sample of each kind it raises `ValueError`. -/
def buildProof (stdout : CString) : Option PacketProof :=
  let (encrypted, decrypted) := (packetEvents stdout).foldl
    (fun (encrypted, decrypted) event =>
      (takeSample (lit "encrypt") encrypted event, takeSample (lit "decrypt") decrypted event))
    ([], [])
  if encrypted = [] ∨ decrypted = [] then none
  else
    some
      { plaintext := proofPlaintext
        plaintextPaddedHex := plaintextPaddedHex
        encryptedSampleHex := encrypted
        decryptedSampleHex := decrypted
        ciphertextDiffers := encrypted ≠ plaintextPaddedHex
        decryptMatches := decrypted = plaintextPaddedHex }

/-- `grep`: the lines in which the pattern occurs, with the start of the first one in
front. -/
def grep (pattern : CString) : CString → CString → CString
  | line, [] => if line ≠ [] ∧ pattern <:+: line then line ++ [10] else []
  | line, b :: s =>
    if b = 10 then (if pattern <:+: line then line ++ [10] else []) ++ grep pattern [] s
    else grep pattern (line ++ [b]) s

/-- The pattern of `test_tc_udp_chat.sh`. -/
def packetPattern : CString := lit "\"type\":\"packet\""

/-- What `test_tc_udp_chat.sh` prints of the two logs when it passes. -/
def chatTestOutput (encLog decLog : CString) : CString :=
  grep packetPattern [] encLog ++ (grep packetPattern [] decLog ++ lit "tc udp chat crypto passed\n")

/-! ## Samples -/

section Samples
variable {action sample : CString} {event : Value} {events : List Value}

/-- A sample that was taken stays. -/
theorem foldl_takeSample_of_ne_nil (h : sample ≠ []) :
    events.foldl (takeSample action) sample = sample := by
  induction events with
  | nil => rfl
  | cons event events ih =>
    rw [List.foldl_cons, takeSample, if_neg fun hnil => h hnil.2]
    exact ih

/-- Events of other actions are left out. -/
theorem foldl_takeSample_of_other
    (h : ∀ event ∈ events, strMember event (lit "action") ≠ some action) :
    events.foldl (takeSample action) sample = sample := by
  induction events with
  | nil => rfl
  | cons event events ih =>
    obtain ⟨hevent, hevents⟩ := List.forall_mem_cons.mp h
    rw [List.foldl_cons, takeSample, if_neg fun hnil => hevent hnil.1]
    exact ih hevents

/-- The two samples are taken independently. -/
theorem foldl_takeSamples (events : List Value) (encrypted decrypted : CString) :
    events.foldl
        (fun (encrypted, decrypted) event =>
          (takeSample (lit "encrypt") encrypted event, takeSample (lit "decrypt") decrypted event))
        (encrypted, decrypted) =
      (events.foldl (takeSample (lit "encrypt")) encrypted,
        events.foldl (takeSample (lit "decrypt")) decrypted) := by
  induction events generalizing encrypted decrypted with
  | nil => rfl
  | cons event events ih =>
    rw [List.foldl_cons, ih]
    rfl

/-- The events of a process that has one action and never an empty sample. -/
def Samples (action : UInt8) (evs : List EbafCryptoEvent) : Prop :=
  ∀ ev ∈ evs, ev.action = action ∧ formatSampleHex ev ≠ []

/-- The first sample of a process. -/
def firstSample (evs : List EbafCryptoEvent) : CString := (evs.head?.map formatSampleHex).getD []

theorem foldl_takeSample_members {evs : List EbafCryptoEvent} {act : UInt8} (h : Samples act evs) :
    (evs.map fun ev => Value.obj ev.members).foldl (takeSample (actionName act)) [] =
      firstSample evs := by
  cases evs with
  | nil => rfl
  | cons ev evs =>
    obtain ⟨haction, hsample⟩ := h ev List.mem_cons_self
    have htaken : takeSample (actionName act) [] (.obj ev.members) = formatSampleHex ev := by
      have hmember : strMember (.obj ev.members) (lit "action") = some (actionName ev.action) := rfl
      rw [takeSample, hmember, haction, if_pos ⟨rfl, rfl⟩]
      rfl
    rw [List.map_cons, List.foldl_cons, htaken]
    exact foldl_takeSample_of_ne_nil hsample

theorem foldl_takeSample_others {evs : List EbafCryptoEvent} {act : UInt8} (h : Samples act evs)
    (act' : UInt8) (hne : actionName act ≠ actionName act') (sample : CString) :
    (evs.map fun ev => Value.obj ev.members).foldl (takeSample (actionName act')) sample = sample := by
  refine foldl_takeSample_of_other fun event hevent => ?_
  obtain ⟨ev, hev, rfl⟩ := List.mem_map.mp hevent
  have hmember : strMember (.obj ev.members) (lit "action") = some (actionName ev.action) := rfl
  rw [hmember, (h ev hev).1]
  exact fun heq => hne (Option.some.inj heq)

end Samples

/-! ## The output of the test -/

section Output
variable {pattern line body rest : CString} {texts : List CString} {cfg cfg' : EbafUserConfig}
  {outs outs' : List Output}

theorem grep_line (h : PlainText body) : grep pattern line (body ++ 10 :: rest) =
    (if pattern <:+: line ++ body then line ++ body ++ [10] else []) ++ grep pattern [] rest := by
  induction body generalizing line with
  | nil =>
    rw [List.append_nil]
    exact if_pos rfl
  | cons b body ih =>
    obtain ⟨hb, hbody⟩ := List.forall_mem_cons.mp h
    have hne : b ≠ 10 := by
      rintro rfl
      exact absurd hb.1 (by decide)
    rw [List.cons_append, grep, if_neg hne, ih hbody, List.append_assoc, List.singleton_append]

/-- **Lines are kept or left out as a whole.** -/
theorem grep_flatten (h : ∀ text ∈ texts, OneLine text) : grep pattern [] texts.flatten =
    (texts.filter fun text => pattern <:+: text.dropLast).flatten := by
  induction texts with
  | nil => exact if_neg fun h => h.1 rfl
  | cons text texts ih =>
    obtain ⟨body, rfl, hbody⟩ := h text List.mem_cons_self
    rw [List.flatten_cons, List.append_assoc, List.singleton_append, grep_line hbody,
      ih fun t ht => h t (List.mem_cons_of_mem _ ht), List.filter_cons, List.dropLast_concat,
      List.nil_append]
    by_cases hin : pattern <:+: body
    · simp only [hin, if_true, decide_true, List.flatten_cons]
    · simp only [hin, if_false, decide_false, Bool.false_eq_true, List.nil_append]

/-- An event printed as JSON has the pattern. -/
theorem packetPattern_infix (ev : EbafCryptoEvent) : packetPattern <:+: ev.json := by
  rw [json_eq]
  exact List.IsInfix.trans (by decide) (List.prefix_append _ _).isInfix

/-- **The test keeps the events of a log.** -/
theorem packetEvents_grep (hjson : cfg.outputJsonl = true) (outs : List Output) (rest : CString) :
    packetEvents (grep packetPattern [] (stdoutOf cfg outs) ++ rest) =
      ((printedEvents outs).map fun ev => .obj ev.members) ++ packetEvents rest := by
  let kept (out : Output) : Bool := packetPattern <:+: (out.item.text cfg).dropLast
  have hgrep : grep packetPattern [] (stdoutOf cfg outs) = stdoutOf cfg (outs.filter kept) := by
    rw [stdoutOf, grep_flatten oneLine_printed, List.filter_map]
    rfl
  have hkept : printedEvents (outs.filter kept) = printedEvents outs := by
    rw [printedEvents, List.filterMap_filter]
    refine List.filterMap_congr fun out _ => ?_
    obtain ⟨item, n⟩ := out
    cases item with
    | stats now found total => exact ite_self none
    | event ev =>
      refine if_pos (decide_eq_true ?_)
      have hline : ev.json ++ lit "\n" = ev.json ++ [10] := rfl
      rw [Printed.text, hjson, handleCryptoEvent_jsonl ev (Nat.le_refl _), hline, List.dropLast_concat]
      exact packetPattern_infix ev
  rw [hgrep, packetEvents_printed, if_pos hjson, hkept]

/-- The last line of the test is no event. -/
theorem packetEvents_passed : packetEvents (lit "tc udp chat crypto passed\n") = [] := by
  have hline : ∀ text ∈ [lit "tc udp chat crypto passed\n"], OneLine text :=
    List.forall_mem_singleton.mpr ⟨lit "tc udp chat crypto passed", by decide, by decide⟩
  have hflat := packetEvents_flatten hline []
  have hnone : parse (116 :: lit "c udp chat crypto passed") = none :=
    parse_letter (by decide) rfl
  rw [List.flatten_singleton, List.append_nil] at hflat
  rw [hflat]
  show ((parse (116 :: lit "c udp chat crypto passed")).filter isPacket).toList ++ [] = []
  rw [hnone]
  rfl

/-- **The proof made of two logs**: the first sample of each, if both have one. -/
theorem buildProof_chatTest (hjson : cfg.outputJsonl = true) (hjson' : cfg'.outputJsonl = true)
    (henc : Samples ebafActionEncrypt.toUInt8 (printedEvents outs))
    (hdec : Samples ebafActionDecrypt.toUInt8 (printedEvents outs')) :
    buildProof (chatTestOutput (stdoutOf cfg outs) (stdoutOf cfg' outs')) =
      if printedEvents outs = [] ∨ printedEvents outs' = [] then none
      else
        some
          { plaintext := proofPlaintext
            plaintextPaddedHex := plaintextPaddedHex
            encryptedSampleHex := firstSample (printedEvents outs)
            decryptedSampleHex := firstSample (printedEvents outs')
            ciphertextDiffers := firstSample (printedEvents outs) ≠ plaintextPaddedHex
            decryptMatches := firstSample (printedEvents outs') = plaintextPaddedHex } := by
  -- a sample is never empty, so only a log without events has none
  have hnil : ∀ {act : UInt8} {evs : List EbafCryptoEvent}, Samples act evs →
      (firstSample evs = [] ↔ evs = []) := by
    intro act evs h
    cases evs with
    | nil => exact ⟨fun _ => rfl, fun _ => rfl⟩
    | cons ev evs =>
      refine ⟨fun hsample => absurd hsample (h ev List.mem_cons_self).2, fun h => by cases h⟩
  have hevents : packetEvents (chatTestOutput (stdoutOf cfg outs) (stdoutOf cfg' outs')) =
      ((printedEvents outs).map fun ev => .obj ev.members) ++
        (printedEvents outs').map fun ev => .obj ev.members := by
    rw [chatTestOutput, packetEvents_grep hjson, packetEvents_grep hjson', packetEvents_passed,
      List.append_nil]
  -- the events of the other log are of the other action
  have hencrypted : (packetEvents (chatTestOutput (stdoutOf cfg outs) (stdoutOf cfg' outs'))).foldl
      (takeSample (lit "encrypt")) [] = firstSample (printedEvents outs) := by
    have hname : lit "encrypt" = actionName ebafActionEncrypt.toUInt8 := by decide
    rw [hevents, List.foldl_append, hname, foldl_takeSample_members henc,
      foldl_takeSample_others hdec _ (by decide)]
  have hdecrypted : (packetEvents (chatTestOutput (stdoutOf cfg outs) (stdoutOf cfg' outs'))).foldl
      (takeSample (lit "decrypt")) [] = firstSample (printedEvents outs') := by
    have hname : lit "decrypt" = actionName ebafActionDecrypt.toUInt8 := by decide
    rw [hevents, List.foldl_append, hname, foldl_takeSample_others henc _ (by decide),
      foldl_takeSample_members hdec]
  rw [buildProof, foldl_takeSamples, hencrypted, hdecrypted]
  simp only [hnil henc, hnil hdec]

end Output

/-! ## The samples of a framed program -/

section Framed
variable {Ctx : Type} {K : CryptoKernel Ctx} {p : FramedProgram} {x y z : Crossing Ctx}
  {cfg cfg' : EbafUserConfig} {c : Ctx} {ev : EbafCryptoEvent}

/-- **The event of a framed program**: its body has been handed to the cipher, and the
sample is as much of the result as a sample holds. -/
theorem Crossing.framed_event (hp : x.program = .framed p) (hev : ev ∈ (x.result K).events) :
    ∃ config c d, Handed x.env (p.Accepts x.frame) p.direction config c d ∧
      ev.action = UInt8.ofNat config.action.toNat ∧
      formatSampleHex ev =
        hexText ((K.crypt d c (framedIv x.frame) (framedBody x.frame)).take ebafEventSampleBytes) := by
  have hend := p.spec K x.env (entering x.frame (some x.entry))
  rw [Crossing.result, hp] at hev
  replace hev : ev ∈ ((p.run K x.env).exec (entering x.frame (some x.entry))).events := hev
  generalize (p.run K x.env).exec (entering x.frame (some x.entry)) = s' at hev hend
  cases hend with
  | refused _ hs =>
    obtain ⟨d, -, rfl⟩ := hs
    cases hev
  | failed config c d _ _ hs =>
    subst hs
    cases hev
  | transformed config c d handed _ hs =>
    subst hs
    have hmem : ev ∈ submitted x.env
        (framedEvent x.env config x.frame (framedCrypt K d c x.frame)) := hev
    rw [submitted] at hmem
    split at hmem
    · cases hmem
    · obtain rfl := List.mem_singleton.mp hmem
      have framed : IsFramed config.udpPort x.frame := FramedProgram.Accepts.framed handed.accepted
      obtain ⟨hreports, hfull⟩ : Reports K x.frame (framedCall x.frame d c true)
            (framedEvent x.env config x.frame (framedCrypt K d c x.frame)) ∧
          FullSample (framedCall x.frame d c true)
            (framedEvent x.env config x.frame (framedCrypt K d c x.frame)) :=
        framedEvent_reports framed d c
      refine ⟨config, c, d, handed, rfl, congrArg hexText ?_⟩
      -- the sample is cut at the length of the body, which is that of the result
      have hlength : (framedBody x.frame).length =
          (K.crypt d c (framedIv x.frame) (framedBody x.frame)).length := (K.length_crypt ..).symm
      rw [sampleBytes_of_le (hreports.sampleFits.trans (Nat.min_le_left ..)), hreports.sample, hfull]
      show (K.crypt d c (framedIv x.frame) (framedBody x.frame)).take
        (min ebafEventSampleBytes (framedBody x.frame).length) = _
      rw [hlength]
      exact List.take_eq_take_min.symm

/-- What a host with a key has made of a packet. -/
theorem Crossing.framed_sample (hp : x.program = .framed p)
    (hkeyed : ∃ answers : Env Ctx, x.env = answers.keyed cfg.crypto c) {d : Direction}
    (hd : p.direction cfg.crypto = some d) (hev : ev ∈ (x.result K).events) :
    p.Accepts x.frame cfg.crypto ∧ ev.action = UInt8.ofNat cfg.crypto.action.toNat ∧
      formatSampleHex ev =
        hexText ((K.crypt d c (framedIv x.frame) (framedBody x.frame)).take ebafEventSampleBytes) := by
  obtain ⟨config, c', d', handed, haction, hsample⟩ := Crossing.framed_event hp hev
  obtain ⟨answers, henv⟩ := hkeyed
  have hconfig : x.env.config = some cfg.crypto := congrArg Env.config henv
  have hslot : x.env.slot = some (some c) := congrArg Env.slot henv
  obtain rfl := Option.some.inj (hconfig.symm.trans handed.configured)
  obtain rfl := Option.some.inj (Option.some.inj (hslot.symm.trans handed.keyed.installed))
  obtain rfl := Option.some.inj (hd.symm.trans handed.selected)
  exact ⟨handed.accepted, haction, hsample⟩

/-- A body that is taken is not empty. -/
theorem hexText_sample_ne_nil {config : EbafCryptoConfig} (h : p.Accepts x.frame config)
    {d : Direction} : hexText ((K.crypt d c (framedIv x.frame) (framedBody x.frame)).take
      ebafEventSampleBytes) ≠ [] := by
  have hbody := (FramedProgram.Accepts.framed h).body
  intro hnil
  have hlen := congrArg List.length hnil
  rw [hexText_length, List.length_take, K.length_crypt, framedBody_length, ebafEventSampleBytes,
    List.length_nil] at hlen
  omega

/-- The body the second host makes of a packet: the one that was sent, or what decryption
makes of it if a call has failed and it went out as it was. -/
def receivedBody (K : CryptoKernel Ctx) (c : Ctx) (z : Crossing Ctx) : List UInt8 :=
  if FramedReady z.env then framedBody z.frame
  else K.crypt .decrypt c (framedIv z.frame) (framedBody z.frame)

theorem tcCrypto_of_not_ready {e : Env Ctx} {s : PacketState Ctx} (hready : ¬ FramedReady e) :
    ((tcCrypto K e).exec s).frame = s.frame := by
  cases tcCrypto_spec K e s with
  | refused _ hs => exact hs.frame
  | failed config c d handed hcipher hs =>
    rw [hs]
    rfl
  | transformed config c d handed hcipher hs => exact absurd ⟨handed.keyed.dynptrs, hcipher⟩ hready

/-- **What is decrypted was sent**, encrypted if the calls succeeded. -/
theorem Paired.decrypted_body (hpair : Paired cfg cfg' (.framed .tc) (.framed .tc))
    (hinv : K.Inverts c fun n => n % 16 = 0) (hp : z.program = .framed .tc)
    (hkeyed : ∃ answers : Env Ctx, z.env = answers.keyed cfg.crypto c) {f : Frame}
    (hsent : f = (z.result K).frame) (haccepts : TcAccepts f cfg'.crypto) :
    TcAccepts z.frame cfg.crypto ∧
      K.crypt .decrypt c (framedIv f) (framedBody f) = receivedBody K c z := by
  obtain ⟨answers, henv⟩ := hkeyed
  have hresult : (z.result K).frame = ((tcCrypto K (answers.keyed cfg.crypto c)).exec
      (entering z.frame (some z.entry))).frame := by
    rw [Crossing.result, hp, henv]
    rfl
  rw [receivedBody, henv]
  rw [hresult] at hsent
  by_cases hready : FramedReady (answers.keyed cfg.crypto c)
  · by_cases hz : TcAccepts z.frame cfg.crypto
    · have hframe : f = framedCrypt K .encrypt c z.frame :=
        hsent.trans (framed_seals hpair hready hz).1
      have hlen : (K.crypt .encrypt c (framedIv z.frame) (framedBody z.frame)).length =
          framedBodyLen z.frame := (K.length_crypt ..).trans framedBody_length
      have hbody : framedBody (framedCrypt K .encrypt c z.frame) =
          K.crypt .encrypt c (framedIv z.frame) (framedBody z.frame) :=
        framedBody_withBody hz.framed hlen
      refine ⟨hz, ?_⟩
      rw [if_pos hready, hframe, (framedCrypt_sameHeaders .encrypt c).framedIv, hbody]
      exact hinv _ _ (by rw [framedBody_length]; exact hz.aligned)
    · -- a packet that was passed is not one the other end takes
      have hsame := (framed_passes (K := K) (e := answers.keyed cfg.crypto c)
        (s := entering z.frame (some z.entry)) rfl hz).frame
      rw [hsent, hsame] at haccepts
      exact absurd (hpair.tcAccepts_iff.mp haccepts) hz
  · have hsame : f = z.frame := hsent.trans (tcCrypto_of_not_ready hready)
    rw [hsame] at haccepts ⊢
    exact ⟨hpair.tcAccepts_iff.mp haccepts, (if_neg hready).symm⟩

end Framed

/-! ## Two hosts -/

section Hosts
variable {Other Other' Ctx : Type} {cpus cpus' : Nat}

/-- What a host has sent. -/
def MainState.wire (K : CryptoKernel Ctx) (s : MainState Ctx cpus) : List Frame :=
  s.crossed.map fun x => (x.result K).frame

/-- The frame of a packet. -/
def MainAct.frame? : MainAct Ctx cpus → Option Frame
  | .packet _ _ _ f => some f
  | _ => none

/-- What meets the second host has been sent by the first one, whatever was lost, repeated
or overtaken in between, or is no framed datagram to the port. -/
def Arrives (K : CryptoKernel Ctx) (port : UInt16) (s : MainState Ctx cpus) (a : MainAct Ctx cpus') :
    Prop :=
  ∀ f ∈ a.frame?, f ∈ s.wire K ∨ ¬ IsFramed port f

instance (K : CryptoKernel Ctx) (port : UInt16) (s : MainState Ctx cpus) (a : MainAct Ctx cpus') :
    Decidable (Arrives K port s a) :=
  inferInstanceAs (Decidable (∀ f ∈ a.frame?, _))

/-- `main` on two hosts with the network between them. -/
def pairStep (K : CryptoKernel Ctx) (k : LoaderKernel Other Ctx) (k' : LoaderKernel Other' Ctx)
    (cfg cfg' : EbafUserConfig) :
    MainState Ctx cpus × MainState Ctx cpus' → MainAct Ctx cpus ⊕ MainAct Ctx cpus' →
      Option (MainState Ctx cpus × MainState Ctx cpus') :=
  beside (MainState.step K k cfg) (MainState.step K k' cfg') (Arrives K cfg'.crypto.udpPort)

variable {K : CryptoKernel Ctx} {k : LoaderKernel Other Ctx} {k' : LoaderKernel Other' Ctx}
  {cfg cfg' : EbafUserConfig}

/-- Only a packet crosses. -/
theorem MainState.crossed_step {s s' : MainState Ctx cpus} {a : MainAct Ctx cpus}
    (h : MainState.step K k cfg s a = some s') :
    s'.crossed = s.crossed ∨ ∃ x, s'.crossed = s.crossed ++ [x] ∧ a.frame? = some x.frame := by
  cases MainState.step_cases h with
  | packet cpu p answers f hpc hp => exact Or.inr ⟨_, rfl, rfl⟩
  | signal hpc => exact Or.inl rfl
  | leave hpc hexit => exact Or.inl rfl
  | turn now found hpc hexit =>
    refine Or.inl ?_
    rw [MainState.turn]
    split <;> rfl
  | poll n hpc hn => exact Or.inl rfl
  | deadline now hpc => exact Or.inl rfl

/-- **What the second host has met came from the first one.** -/
theorem arrived_run {s s' : MainState Ctx cpus × MainState Ctx cpus'}
    {acts : List (MainAct Ctx cpus ⊕ MainAct Ctx cpus')} (hs : s.2.crossed = [])
    (h : run (pairStep K k k' cfg cfg') s acts = some s') :
    ∀ y ∈ s'.2.crossed, y.frame ∈ s'.1.wire K ∨ ¬ IsFramed cfg'.crypto.udpPort y.frame := by
  refine run_invariant (I := fun s : MainState Ctx cpus × MainState Ctx cpus' =>
    ∀ y ∈ s.2.crossed, y.frame ∈ s.1.wire K ∨ ¬ IsFramed cfg'.crypto.udpPort y.frame) ?_ ?_ h
  · intro s act s' hs hstep
    rcases beside_cases hstep with ⟨a, m, -, hm, rfl⟩ | ⟨b, m, -, harrives, hm, rfl⟩
    · -- the wire grows
      have hgrows : s.1.wire K ⊆ m.wire K := by
        rcases MainState.crossed_step hm with hsame | ⟨x, hx, -⟩
        · rw [MainState.wire, MainState.wire, hsame]
          exact fun f hf => hf
        · rw [MainState.wire, MainState.wire, hx, List.map_append]
          exact fun f hf => List.mem_append_left _ hf
      exact fun y hy => (hs y hy).imp_left fun hin => hgrows hin
    · rcases MainState.crossed_step hm with hsame | ⟨x, hx, hframe⟩
      · rw [hsame]
        exact hs
      · rw [hx]
        exact List.forall_mem_append.mpr
          ⟨hs, List.forall_mem_singleton.mpr (harrives x.frame hframe)⟩
  · rw [hs]
    exact List.forall_mem_nil _

/-- A host with `tc_crypto` alone on its way in has nothing on its way out. -/
theorem sendPrograms_of_receives (h : cfg.receivePrograms = [.framed .tc]) :
    cfg.sendPrograms = [] := by
  have hpoint : cfg.attachPoint ≠ .egress := by
    intro hpoint
    rw [EbafUserConfig.receivePrograms, hpoint] at h
    cases hhook : cfg.hook <;> simp [hhook, Hook.usesXdp] at h
  rw [EbafUserConfig.sendPrograms, if_neg fun hn => hpoint hn.2]

end Hosts

/-! ## What the proof says -/

/-- A short text is what a sample is of if it is the sample. -/
theorem hexText_sample_eq_iff {body text : List UInt8} (h : text.length < ebafEventSampleBytes) :
    hexText (body.take ebafEventSampleBytes) = hexText text ↔ body = text := by
  constructor
  · intro heq
    have htake := hexText_injective heq
    have hlen := congrArg List.length htake
    rw [List.length_take] at hlen
    rw [← htake, List.take_of_length_le (by omega)]
  · rintro rfl
    rw [List.take_of_length_le (Nat.le_of_lt h)]

section Reports
variable {Ctx : Type} {cpus cpus' : Nat} {K : CryptoKernel Ctx} {cfg cfg' : EbafUserConfig} {c : Ctx}
  {t t' : Int} {acts : List (MainAct Ctx cpus)} {acts' : List (MainAct Ctx cpus')}
  {m : MainState Ctx cpus} {m' : MainState Ctx cpus'}

/-- A host that runs one program. -/
theorem Watched.only {p : PacketProgram} (h : Watched K cfg c t acts m)
    (honly : cfg.receivePrograms ++ cfg.sendPrograms = [p]) :
    ∀ x ∈ m.crossed, x.program = p ∧ ∃ answers : Env Ctx, x.env = answers.keyed cfg.crypto c := by
  intro x hx
  obtain ⟨hp, hkeyed⟩ := h.keyed x hx
  rw [← List.mem_append, honly] at hp
  exact ⟨List.mem_singleton.mp hp, hkeyed⟩

/-- What the encrypting host reports: the start of an encrypted body. -/
theorem MainReport.sent (h : MainReport K cfg c t acts m)
    (hpair : Paired cfg cfg' (.framed .tc) (.framed .tc)) (honly : cfg.receivePrograms = []) :
    ∀ ev ∈ printedEvents m.printed, ∃ x ∈ m.crossed, TcAccepts x.frame cfg.crypto ∧
      ev.action = ebafActionEncrypt.toUInt8 ∧ formatSampleHex ev ≠ [] ∧ formatSampleHex ev = hexText
        ((K.crypt .encrypt c (framedIv x.frame) (framedBody x.frame)).take ebafEventSampleBytes) := by
  intro ev hev
  obtain ⟨x, hx, hin, -⟩ := h.reports ev hev
  obtain ⟨hp, hkeyed⟩ := h.only (by rw [honly, hpair.sends]; rfl) x hx
  obtain ⟨haccepts, haction, hsample⟩ := Crossing.framed_sample hp hkeyed
    (FramedProgram.direction_encrypt hpair.encrypts) hin
  rw [hpair.encrypts] at haction
  refine ⟨x, hx, haccepts, haction, ?_, hsample⟩
  rw [hsample]
  exact hexText_sample_ne_nil haccepts

/-- What the decrypting host reports: the start of a body the other one has sent. -/
theorem MainReport.received (h : MainReport K cfg c t acts m) (h' : MainReport K cfg' c t' acts' m')
    (hpair : Paired cfg cfg' (.framed .tc) (.framed .tc)) (honly : cfg.receivePrograms = [])
    (hinv : K.Inverts c fun n => n % 16 = 0)
    (harrived : ∀ y ∈ m'.crossed, y.frame ∈ m.wire K ∨ ¬ IsFramed cfg'.crypto.udpPort y.frame) :
    ∀ ev ∈ printedEvents m'.printed, ∃ z ∈ m.crossed, TcAccepts z.frame cfg.crypto ∧
      ev.action = ebafActionDecrypt.toUInt8 ∧ formatSampleHex ev ≠ [] ∧
      formatSampleHex ev = hexText ((receivedBody K c z).take ebafEventSampleBytes) := by
  intro ev hev
  obtain ⟨y, hy, hin, -⟩ := h'.reports ev hev
  obtain ⟨hp, hkeyed⟩ := h'.only
    (by rw [hpair.receives, sendPrograms_of_receives hpair.receives]; rfl) y hy
  obtain ⟨haccepts, haction, hsample⟩ := Crossing.framed_sample hp hkeyed
    (FramedProgram.direction_decrypt hpair.decrypts) hin
  rw [hpair.decrypts] at haction
  have hwire := (harrived y hy).resolve_right fun hn => hn (FramedProgram.Accepts.framed haccepts)
  obtain ⟨z, hz, hframe⟩ := List.mem_map.mp hwire
  obtain ⟨hpz, hkeyedz⟩ := h.only (by rw [honly, hpair.sends]; rfl) z hz
  obtain ⟨htaken, hbody⟩ := hpair.decrypted_body hinv hpz hkeyedz hframe.symm haccepts
  refine ⟨z, hz, htaken, haction, ?_, ?_⟩
  · rw [hsample]
    exact hexText_sample_ne_nil haccepts
  · rw [hsample, hbody]

end Reports

/-- The first sample is that of an event. -/
theorem exists_firstSample {evs : List EbafCryptoEvent} (h : evs ≠ []) :
    ∃ ev ∈ evs, firstSample evs = formatSampleHex ev := by
  cases evs with
  | nil => exact absurd rfl h
  | cons ev evs => exact ⟨ev, List.mem_cons_self, rfl⟩

/-- **What the packet proof says.**  `main` is started on two hosts, to encrypt at the TC
hook what one sends and to decrypt what the other one receives, for one port and key and
with `--jsonl`.  However packets, statistics and polls fall on both, and whatever the
network loses, repeats and reorders, the proof made of what was printed so far is refused
exactly if one of them has printed no event; otherwise the first sample is of the
encrypted body of a packet the first host has sent, the second one is of the plain body of
such a packet, or of what decryption makes of it if it could not be encrypted, and the
verdicts are right about these two bodies. -/
theorem packet_proof_right {Other Other' Ctx : Type} (e e' : MainEnv Ctx) (o : Others Other)
    (o' : Others Other') (argv argv' : List CString) (cfg cfg' : EbafUserConfig)
    (s₀ : LoaderState Other Ctx) (s₀' : LoaderState Other' Ctx)
    (hstart : startMain e o argv = .started cfg s₀)
    (hstart' : startMain e' o' argv' = .started cfg' s₀')
    (hpair : Paired cfg cfg' (.framed .tc) (.framed .tc)) (honly : cfg.receivePrograms = [])
    (hcreate : e'.load.ctxEnv.create = e.load.ctxEnv.create) (hjson : cfg.outputJsonl = true)
    (hjson' : cfg'.outputJsonl = true) (K : CryptoKernel Ctx) (c : Ctx)
    (hc : Creates e.load.ctxEnv cfg.crypto c) (hinv : K.Inverts c fun n => n % 16 = 0)
    (cpus cpus' : Nat) (startTime startTime' : Int)
    (acts : List (MainAct Ctx cpus ⊕ MainAct Ctx cpus'))
    (s : MainState Ctx cpus × MainState Ctx cpus')
    (hrun : run (pairStep K s₀.kernel s₀'.kernel cfg cfg') (.init startTime, .init startTime') acts =
      some s) :
    (buildProof (chatTestOutput (stdoutOf cfg s.1.printed) (stdoutOf cfg' s.2.printed)) = none ↔
      printedEvents s.1.printed = [] ∨ printedEvents s.2.printed = []) ∧
    ∀ proof,
      buildProof (chatTestOutput (stdoutOf cfg s.1.printed) (stdoutOf cfg' s.2.printed)) =
        some proof →
      ∃ x ∈ s.1.crossed, ∃ z ∈ s.1.crossed,
        TcAccepts x.frame cfg.crypto ∧ TcAccepts z.frame cfg.crypto ∧
        proof.encryptedSampleHex = hexText
          ((K.crypt .encrypt c (framedIv x.frame) (framedBody x.frame)).take ebafEventSampleBytes) ∧
        proof.decryptedSampleHex = hexText ((receivedBody K c z).take ebafEventSampleBytes) ∧
        (proof.ciphertextDiffers = true ↔
          K.crypt .encrypt c (framedIv x.frame) (framedBody x.frame) ≠ proofPlaintext ++ [2, 2]) ∧
        (proof.decryptMatches = true ↔ receivedBody K c z = proofPlaintext ++ [2, 2]) := by
  obtain ⟨c₁, hc₁, hwatched⟩ := watched_run hstart
  obtain ⟨c₂, hc₂, hwatched'⟩ := watched_run hstart'
  obtain rfl : c₁ = c := hc.unique hc₁
  obtain rfl : c₂ = c₁ := hpair.same_ctx hcreate hc₁ hc₂
  -- each host has a run of its own
  obtain ⟨hrun₁, hrun₂⟩ := run_beside hrun
  have hleft := (hwatched K cpus startTime _ _ hrun₁).report
  have hright := (hwatched' K cpus' startTime' _ _ hrun₂).report
  have hsent := hleft.sent hpair honly
  have hreceived := hleft.received hright hpair honly hinv (arrived_run rfl hrun)
  have hproof := buildProof_chatTest hjson hjson'
    (fun ev hev => by
      obtain ⟨x, -, -, haction, hne, -⟩ := hsent ev hev
      exact ⟨haction, hne⟩)
    (fun ev hev => by
      obtain ⟨z, -, -, haction, hne, -⟩ := hreceived ev hev
      exact ⟨haction, hne⟩)
  -- the padded text is shorter than a sample, so a sample tells whether a body is it
  have hlength : (proofPlaintext ++ [2, 2]).length < ebafEventSampleBytes := by decide
  rw [hproof]
  by_cases hnone : printedEvents s.1.printed = [] ∨ printedEvents s.2.printed = []
  · rw [if_pos hnone]
    exact ⟨iff_of_true rfl hnone, fun proof h => by cases h⟩
  · rw [if_neg hnone]
    refine ⟨iff_of_false (Option.some_ne_none _) hnone, fun proof h => ?_⟩
    obtain rfl := Option.some.inj h
    obtain ⟨hsome, hsome'⟩ := not_or.mp hnone
    obtain ⟨ev, hev, hfirst⟩ := exists_firstSample hsome
    obtain ⟨ev', hev', hfirst'⟩ := exists_firstSample hsome'
    obtain ⟨x, hx, htaken, -, -, hsample⟩ := hsent ev hev
    obtain ⟨z, hz, htaken', -, -, hsample'⟩ := hreceived ev' hev'
    rw [hfirst, hfirst', hsample, hsample']
    refine ⟨x, hx, z, hz, htaken, htaken', rfl, rfl, ?_, ?_⟩
    · exact decide_eq_true_iff.trans (not_congr (hexText_sample_eq_iff hlength))
    · exact decide_eq_true_iff.trans (hexText_sample_eq_iff hlength)

/-! ## The chat of the test -/

def proofConfig (action : UInt32) : EbafUserConfig :=
  { knownUserConfig action .tc with
    printEvents := true
    outputJsonl := true }

def proofArgv (mode : CString) : List CString := knownArgv mode (lit "tc") ++ [lit "--jsonl"]

/-- The text as the client pads it. -/
def proofBlock : List UInt8 := proofPlaintext ++ [2, 2]

/-- A cipher that knows this block. -/
def proofKernel (Ctx : Type) : CryptoKernel Ctx :=
  .knownAnswers Ctx [proofBlock, knownCipher] (n := 16) (by decide)

def proofStart (action : UInt32) : LoaderState Unit BpfCryptoParams :=
  (ebafBpfStart .smooth (proofConfig action)).exec (.initial (.nobody Unit))

theorem startMain_proof {mode : CString} {action : UInt32}
    (hparse : ebafParseArgs (proofArgv mode) = some (proofConfig action))
    (herr : (proofStart action).err = 0) :
    startMain ⟨.smooth, none, fun _ => []⟩ (.nobody Unit) (proofArgv mode) =
      .started (proofConfig action) (proofStart action) := by
  rw [startMain, hparse]
  exact if_pos herr

/-- The text is sent, arrives and is reported on both hosts. -/
def proofActs : List (MainAct BpfCryptoParams 1 ⊕ MainAct BpfCryptoParams 1) :=
  let cpu : Fin 1 := ⟨0, Nat.one_pos⟩
  let answers := Env.smooth (knownConfig ebafActionEncrypt) (knownConfig ebafActionEncrypt).params
  let plain := blockDatagram proofBlock
  let wire := framedCrypt (proofKernel _) .encrypt (knownConfig ebafActionEncrypt).params plain
  [.inl (.turn 100 true), .inl (.packet cpu (.framed .tc) answers plain), .inr (.turn 100 true),
    .inr (.packet cpu (.framed .tc) answers wire), .inl (.poll 1), .inr (.poll 1)]

theorem run_proofActs : ∃ s, run (pairStep (proofKernel _) (proofStart ebafActionEncrypt).kernel
      (proofStart ebafActionDecrypt).kernel (proofConfig ebafActionEncrypt)
      (proofConfig ebafActionDecrypt)) (.init 100, .init 100) proofActs = some s ∧
    (∀ x ∈ s.1.crossed, FramedReady x.env ∧ x.frame = blockDatagram proofBlock) ∧
    ¬ (printedEvents s.1.printed = [] ∨ printedEvents s.2.printed = []) := by
  have hany : (run (pairStep (proofKernel _) (proofStart ebafActionEncrypt).kernel
      (proofStart ebafActionDecrypt).kernel (proofConfig ebafActionEncrypt)
      (proofConfig ebafActionDecrypt)) (.init 100, .init 100) proofActs).any (fun s =>
        (∀ x ∈ s.1.crossed, FramedReady x.env ∧ x.frame = blockDatagram proofBlock) ∧
        ¬ (printedEvents s.1.printed = [] ∨ printedEvents s.2.printed = [])) = true := by
    decide +kernel
  obtain ⟨s, hs, hall⟩ := (Option.any_eq_true _ _).mp hany
  exact ⟨s, hs, of_decide_eq_true hall⟩

theorem proofConfig_paired : Paired (proofConfig ebafActionEncrypt) (proofConfig ebafActionDecrypt)
    (.framed .tc) (.framed .tc) :=
  ⟨rfl, rfl, rfl, rfl, rfl, rfl, rfl, rfl⟩

theorem packet_proof_right_of_chat : ∃ s proof,
    run (pairStep (proofKernel _) (proofStart ebafActionEncrypt).kernel
      (proofStart ebafActionDecrypt).kernel (proofConfig ebafActionEncrypt)
      (proofConfig ebafActionDecrypt)) (.init 100, .init 100) proofActs = some s ∧
    buildProof (chatTestOutput (stdoutOf (proofConfig ebafActionEncrypt) s.1.printed)
      (stdoutOf (proofConfig ebafActionDecrypt) s.2.printed)) = some proof ∧
    proof.ciphertextDiffers = true ∧ proof.decryptMatches = true := by
  obtain ⟨s, hrun, hcrossed, hprinted⟩ := run_proofActs
  have hinv : (proofKernel BpfCryptoParams).Inverts (knownConfig ebafActionEncrypt).params
      fun n => n % 16 = 0 := CryptoKernel.knownAnswers_inverts _ _ _
  obtain ⟨hrefused, hright⟩ := packet_proof_right ⟨.smooth, none, fun _ => []⟩
    ⟨.smooth, none, fun _ => []⟩ (.nobody Unit) (.nobody Unit) (proofArgv (lit "encrypt"))
    (proofArgv (lit "decrypt")) _ _ _ _ (startMain_proof (by decide) rfl)
    (startMain_proof (by decide) rfl) proofConfig_paired rfl rfl rfl rfl (proofKernel _)
    (knownConfig ebafActionEncrypt).params ⟨rfl, Or.inl ⟨rfl, rfl⟩, rfl, rfl⟩ hinv 1 1 100 100
    proofActs s hrun
  obtain ⟨proof, hproof⟩ := Option.ne_none_iff_exists'.mp fun h => hprinted (hrefused.mp h)
  obtain ⟨x, hx, z, hz, -, -, -, -, hdiffers, hmatches⟩ := hright proof hproof
  have hbody : framedBody (blockDatagram proofBlock) = proofBlock :=
    framedBody_datagram (show Fits (framedPayload knownIv proofBlock) by decide)
  refine ⟨s, proof, hrun, hproof, hdiffers.mpr ?_, hmatches.mpr ?_⟩
  · rw [(hcrossed x hx).2, hbody]
    decide
  · rw [receivedBody, if_pos (hcrossed z hz).1, (hcrossed z hz).2, hbody]
    rfl

end Ebaf
