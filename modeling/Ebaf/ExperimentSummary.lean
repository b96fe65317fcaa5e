import Ebaf.FloatRounding
import Ebaf.Grouping
import Ebaf.LogReaders
import Mathlib.Algebra.Order.BigOperators.Group.List
import Mathlib.Data.List.Sort

/-! # The summary of an experiment

`run_experiment.py` keeps the results of many runs, `analyze_experiment.py` makes a row of
all results of one name.  No result is lost or counted twice, and the figures of a row are
those of its results, the median as a floating-point number.
-/
namespace Ebaf
open CStrings EarlyExit Runs JsonText NumberScan Grouping FloatRounding

/-! ## The script -/

/-- An output as the programs write it: ASCII text, in lines in which no number has too many
digits and no value is nested too deep for Python. -/
structure LogText (stdout : CString) : Prop where
  ascii : ∀ b ∈ stdout, b < 128
  lines : ∀ line ∈ splitLines 0 [] stdout, line.length ≤ 900

/-- A result in the file; the duration, a floating-point number, is left out. -/
structure ExperimentResult where
  name : CString
  stdout : CString
  returncode : Int
  hook : Option Value
  mode : Option Value
  payloadBytes : Option Value
  metadata : List (CString × Value)
  log : LogText stdout

/-- A row; a figure that is not there is written as an empty text. -/
structure SummaryRow where
  name : CString
  hook : Value
  mode : Value
  payloadBytes : Value
  samples : Nat
  passed : Bool
  ppsMin : Option Nat
  ppsMedian : Option Nat
  ppsMax : Option Nat
  cryptoOk : Nat
  malformed : Nat
  cpuCount : Value
  kernel : Value

/-- `re.search(r"pps=(\d+)", stdout)` -/
def ppsOf (result : ExperimentResult) : Option Nat :=
  (findAll (lit "pps=") 0 result.stdout).head?.map digitsValue

/-- What a result adds to `crypto_ok`. -/
def cryptoOkOf (result : ExperimentResult) : Nat :=
  parseLastCounter result.stdout (lit "crypto_ok") + countPacketEvents result.stdout

def malformedOf (result : ExperimentResult) : Nat := parseLastCounter result.stdout (lit "malformed")

/-- The exceptions of `statistics.median`. -/
inductive MedianError where
  | statisticsError
  | overflowError
  deriving DecidableEq

/-- A number as a floating-point number of double precision, but for its range. -/
def roundDouble (n : Nat) : Nat := roundTo 53 n

/-- `sys.float_info.max_exp` -/
def maxExp : Nat := 1024

/-- `int(n / 2)`: half a number as a floating-point number, without its fraction. -/
def halve (n : Nat) : Except MedianError Nat :=
  if roundDouble n < 2 ^ (maxExp + 1) then .ok (roundDouble n / 2) else .error .overflowError

/-- The middle of sorted data, or half the sum of the two middle ones. -/
def middleOf (data : List Nat) : Except MedianError Nat :=
  if h : data.length = 0 then .error .statisticsError
  else if data.length % 2 = 1 then .ok (data.get ⟨data.length / 2, by omega⟩)
  else halve (data.get ⟨data.length / 2 - 1, by omega⟩ + data.get ⟨data.length / 2, by omega⟩)

/-- `int(statistics.median(pps))` -/
def median (pps : List Nat) : Except MedianError Nat := middleOf (pps.mergeSort fun a b => a ≤ b)

/-- `int(statistics.median(pps)) if pps else ""` -/
def medianFigure (pps : List Nat) : Except MedianError (Option Nat) :=
  if pps = [] then .ok none else (median pps).map some

/-- The row of the results of one name. -/
def summaryRow (name : CString) (results : List ExperimentResult) : Except MedianError SummaryRow :=
  let pps := results.filterMap ppsOf
  let first := results.head?
  let metadata := Value.obj ((first.map ExperimentResult.metadata).getD [])
  (medianFigure pps).map fun ppsMedian =>
    { name := name
      hook := (first.bind ExperimentResult.hook).getD (.str [])
      mode := (first.bind ExperimentResult.mode).getD (.str [])
      payloadBytes := (first.bind ExperimentResult.payloadBytes).getD (.str [])
      samples := results.length
      passed := results.foldl (fun passed result => passed && result.returncode = 0) true
      ppsMin := pps.min?
      ppsMedian := ppsMedian
      ppsMax := pps.max?
      cryptoOk := results.foldl (fun n result => n + cryptoOkOf result) 0
      malformed := results.foldl (fun n result => n + malformedOf result) 0
      cpuCount := (metadata.member (lit "cpu_count")).getD (.str [])
      kernel := (metadata.member (lit "kernel")).getD (.str []) }

/-- `summarize`: the rows, or the exception it raises. -/
def summarize (results : List ExperimentResult) : Except MedianError (List SummaryRow) :=
  (group ExperimentResult.name results).mapM fun (name, results) => summaryRow name results

/-! ## Figures -/

theorem foldl_add_eq {α : Type} (f : α → Nat) (l : List α) :
    l.foldl (fun n a => n + f a) 0 = (l.map f).sum := by
  rw [List.sum_eq_foldl, List.foldl_map]

theorem passed_iff (results : List ExperimentResult) :
    results.foldl (fun passed result => passed && result.returncode = 0) true = true ↔
      ∀ result ∈ results, result.returncode = 0 := by
  have hall : ∀ b : Bool, results.foldl (fun passed result => passed && result.returncode = 0) b =
      (b && results.all fun result => result.returncode = 0) := by
    induction results with
    | nil => exact fun b => (Bool.and_true b).symm
    | cons result results ih =>
      intro b
      rw [List.foldl_cons, ih, List.all_cons, Bool.and_assoc]
  rw [hall, Bool.true_and, List.all_eq_true]
  simp only [decide_eq_true_iff]

/-! ## The median -/

/-- At least half of the values are at most one number, and at least half are at least the other
one. -/
def Middle (values : List Nat) (low high : Nat) : Prop :=
  values.length ≤ 2 * (values.countP fun a => a ≤ low) ∧
    values.length ≤ 2 * (values.countP fun a => high ≤ a)

section Median
variable {sorted pps : List Nat} {i m low high : Nat}

/-- Up to a position everything is at most what stands there. -/
theorem lt_countP_le (horder : sorted.Pairwise (· ≤ ·)) (hi : i < sorted.length) :
    i < sorted.countP fun a => a ≤ sorted[i] := by
  have htake : (sorted.take (i + 1)).countP (fun a => decide (a ≤ sorted[i])) = i + 1 := by
    have hall : ∀ a ∈ sorted.take (i + 1), decide (a ≤ sorted[i]) = true := by
      intro a ha
      obtain ⟨j, hj, rfl⟩ := List.getElem_of_mem ha
      rw [List.length_take] at hj
      rw [List.getElem_take, decide_eq_true_iff]
      rcases Nat.lt_or_ge j i with hlt | hge
      · exact List.pairwise_iff_getElem.mp horder j i (by omega) hi hlt
      · obtain rfl : j = i := by omega
        exact Nat.le_refl _
    rw [List.countP_eq_length.mpr hall, List.length_take]
    omega
  have hle : (sorted.take (i + 1)).countP (fun a => decide (a ≤ sorted[i])) ≤
      sorted.countP fun a => decide (a ≤ sorted[i]) := (List.take_sublist (i + 1) sorted).countP_le
  omega

/-- From a position on everything is at least what stands there. -/
theorem le_countP_ge (horder : sorted.Pairwise (· ≤ ·)) (hi : i < sorted.length) :
    sorted.length - i ≤ sorted.countP fun a => sorted[i] ≤ a := by
  have hdrop : (sorted.drop i).countP (fun a => decide (sorted[i] ≤ a)) = sorted.length - i := by
    have hall : ∀ a ∈ sorted.drop i, decide (sorted[i] ≤ a) = true := by
      intro a ha
      obtain ⟨j, hj, rfl⟩ := List.getElem_of_mem ha
      rw [List.length_drop] at hj
      rw [List.getElem_drop, decide_eq_true_iff]
      rcases Nat.eq_zero_or_pos j with rfl | hpos
      · exact Nat.le_refl _
      · exact List.pairwise_iff_getElem.mp horder i (i + j) hi (by omega) (by omega)
    rw [List.countP_eq_length.mpr hall, List.length_drop]
  rw [← hdrop]
  exact (List.drop_sublist i sorted).countP_le

/-- A function that keeps the order keeps the middle. -/
theorem Middle.map (h : Middle pps low high) {f : Nat → Nat} (hf : Monotone f) (hlow : f low ≤ m)
    (hhigh : m ≤ f high) : Middle (pps.map f) m m := by
  have hbelow : (pps.countP fun a => a ≤ low) ≤ (pps.map f).countP fun a => a ≤ m := by
    rw [List.countP_map]
    refine List.countP_mono_left fun a _ ha => decide_eq_true ?_
    exact (hf (of_decide_eq_true ha)).trans hlow
  have habove : (pps.countP fun a => high ≤ a) ≤ (pps.map f).countP fun a => m ≤ a := by
    rw [List.countP_map]
    refine List.countP_mono_left fun a _ ha => decide_eq_true ?_
    exact hhigh.trans (hf (of_decide_eq_true ha))
  obtain ⟨hhalf, hhalf'⟩ := h
  rw [Middle, List.length_map]
  omega

/-- **What the median is made of**: the value in the middle, or the two there. -/
theorem median_cases (h : pps ≠ []) :
    (∃ m ∈ pps, median pps = .ok m ∧ Middle pps m m) ∨
      ∃ low ∈ pps, ∃ high ∈ pps, low ≤ high ∧ median pps = halve (low + high) ∧
        Middle pps low high := by
  obtain ⟨sorted, hsort⟩ : ∃ sorted, pps.mergeSort (fun a b => decide (a ≤ b)) = sorted := ⟨_, rfl⟩
  have hperm : sorted.Perm pps := hsort ▸ List.mergeSort_perm pps _
  have horder : sorted.Pairwise (· ≤ ·) := hsort ▸ List.pairwise_mergeSort' (· ≤ ·) pps
  have hnone : sorted.length ≠ 0 := by
    rw [hperm.length_eq]
    exact fun hlen => h (List.length_eq_zero_iff.mp hlen)
  have hmid : sorted.length / 2 < sorted.length := by omega
  have habove := le_countP_ge horder hmid
  simp only [median, hsort, Middle, ← hperm.countP_eq, ← hperm.length_eq, ← hperm.mem_iff]
  rw [middleOf, dif_neg hnone]
  -- the value at a place has so many on either side, by the order
  by_cases hodd : sorted.length % 2 = 1
  · have hbelow := lt_countP_le horder hmid
    rw [if_pos hodd]
    exact Or.inl ⟨sorted[sorted.length / 2], List.getElem_mem hmid, rfl, by omega, by omega⟩
  · have hlow : sorted.length / 2 - 1 < sorted.length := by omega
    have hle : sorted[sorted.length / 2 - 1] ≤ sorted[sorted.length / 2] :=
      List.pairwise_iff_getElem.mp horder _ _ hlow hmid (by omega)
    have hbelow := lt_countP_le horder hlow
    rw [if_neg hodd]
    exact Or.inr ⟨sorted[sorted.length / 2 - 1], List.getElem_mem hlow, sorted[sorted.length / 2],
      List.getElem_mem hmid, hle, rfl, by omega, by omega⟩

theorem roundDouble_mono : Monotone roundDouble := roundTo_mono (by decide)

theorem halve_error {e : MedianError} (h : halve m = .error e) :
    e = .overflowError ∧ ∀ k ≤ maxExp, ¬ m ≤ 2 ^ k := by
  rw [halve] at h
  split at h
  case isTrue => cases h
  rename_i hlarge
  refine ⟨(Except.error.inj h).symm, fun k hk hle => hlarge ?_⟩
  have hround : roundDouble m ≤ 2 ^ k := (roundDouble_mono hle).trans (roundTo_pow (by decide) k).le
  exact hround.trans_lt (Nat.pow_lt_pow_right (by decide) (Nat.lt_succ_of_le hk))

/-- **The median is in the middle**, as far as floating-point numbers tell the values apart;
values below `2 ^ 53` are all told apart. -/
structure IsMedian (pps : List Nat) (m : Nat) : Prop where
  rounded : Middle (pps.map roundDouble) (roundDouble m) (roundDouble m)
  exact : (∀ a ∈ pps, a < 2 ^ 53) → Middle pps m m

theorem roundDouble_of_lt (h : m < 2 ^ 53) : roundDouble m = m := roundTo_of_lt h (by decide)

/-- From there on the last digit is lost. -/
example : roundDouble (2 ^ 53 + 3) = 2 ^ 53 + 4 := by decide

theorem isMedian_of_rounded (h : Middle (pps.map roundDouble) (roundDouble m) (roundDouble m))
    (hm : m ∈ pps ∨ roundDouble m = m) : IsMedian pps m where
  rounded := h
  exact hall := by
    have hsame : pps.map roundDouble = pps :=
      (List.map_congr_left fun a ha => roundDouble_of_lt (hall a ha)).trans (List.map_id _)
    have hmid : roundDouble m = m := hm.elim (fun hin => roundDouble_of_lt (hall m hin)) id
    rwa [hsame, hmid] at h

theorem median_spec (h : median pps = .ok m) : IsMedian pps m := by
  have hne : pps ≠ [] := by
    rintro rfl
    simp [median, middleOf] at h
  rcases median_cases hne with ⟨a, ha, hmedian, hmiddle⟩ | ⟨low, -, high, -, hle, hmedian, hmiddle⟩
  · obtain rfl := Except.ok.inj (hmedian.symm.trans h)
    exact isMedian_of_rounded (hmiddle.map roundDouble_mono (Nat.le_refl _) (Nat.le_refl _)) (Or.inl ha)
  · rw [hmedian, halve] at h
    split at h
    case isFalse => cases h
    obtain rfl := Except.ok.inj h
    have hp : 0 < 53 := by decide
    -- the half lies between the two, as rounding keeps the order
    have hhalf : roundDouble (roundDouble (low + high) / 2) = roundDouble (low + high) / 2 :=
      roundTo_half hp _
    have hlow : 2 * roundDouble low ≤ roundDouble (low + high) := by
      rw [roundDouble, ← roundTo_two_mul hp]
      exact roundDouble_mono (by omega)
    have hhigh : roundDouble (low + high) ≤ 2 * roundDouble high := by
      rw [roundDouble, roundDouble, ← roundTo_two_mul hp]
      exact roundDouble_mono (by omega)
    refine isMedian_of_rounded (hmiddle.map roundDouble_mono ?_ ?_) (Or.inr hhalf)
    · rw [hhalf]
      omega
    · rw [hhalf]
      omega

/-- **Only an overflow is possible**, and not for rates that are not very large. -/
theorem median_error (hne : pps ≠ []) {e : MedianError} (h : median pps = .error e) :
    e = .overflowError ∧ ∃ a ∈ pps, 2 ^ 1023 < a := by
  rcases median_cases hne with ⟨a, -, hmedian, -⟩ | ⟨low, -, high, hhigh, hle, hmedian, -⟩
  · rw [hmedian] at h
    cases h
  · rw [hmedian] at h
    obtain ⟨he, hlarge⟩ := halve_error h
    refine ⟨he, high, hhigh, ?_⟩
    by_contra hsmall
    have hsum : low + high ≤ 2 ^ (1023 + 1) := by
      rw [pow_succ]
      omega
    exact hlarge (1023 + 1) (Nat.le_refl _) hsum

end Median

/-! ## Rows -/

/-- **A row is about these results.** -/
structure RowOf (own : List ExperimentResult) (row : SummaryRow) : Prop where
  nonempty : own ≠ []
  samples : row.samples = own.length
  passed : row.passed = true ↔ ∀ result ∈ own, result.returncode = 0
  cryptoOk : row.cryptoOk = (own.map cryptoOkOf).sum
  malformed : row.malformed = (own.map malformedOf).sum
  /-- The rates are there if one was measured, and lie where they should. -/
  rates : (own.filterMap ppsOf = [] ∧ row.ppsMin = none ∧ row.ppsMedian = none ∧ row.ppsMax = none) ∨
    ∃ lo mid hi, row.ppsMin = some lo ∧ row.ppsMedian = some mid ∧ row.ppsMax = some hi ∧
      lo ∈ own.filterMap ppsOf ∧ hi ∈ own.filterMap ppsOf ∧
      (∀ pps ∈ own.filterMap ppsOf, lo ≤ pps ∧ pps ≤ hi) ∧ IsMedian (own.filterMap ppsOf) mid

/-- The row of a name is about the results it is made of. -/
theorem summaryRow_spec {name : CString} {own : List ExperimentResult} {row : SummaryRow}
    (hown : own ≠ []) (h : summaryRow name own = .ok row) : row.name = name ∧ RowOf own row := by
  rw [summaryRow] at h
  cases hfigure : medianFigure (own.filterMap ppsOf) with
  | error e =>
    rw [hfigure] at h
    cases h
  | ok figure =>
    rw [hfigure] at h
    obtain rfl := Except.ok.inj h
    refine ⟨rfl, hown, rfl, passed_iff own, foldl_add_eq cryptoOkOf own, foldl_add_eq malformedOf own,
      ?_⟩
    by_cases hnone : own.filterMap ppsOf = []
    · rw [medianFigure, if_pos hnone] at hfigure
      obtain rfl := Except.ok.inj hfigure
      exact Or.inl ⟨hnone, (congrArg List.min? hnone).trans List.min?_nil, rfl,
        (congrArg List.max? hnone).trans List.max?_nil⟩
    · rw [medianFigure, if_neg hnone] at hfigure
      cases hmedian : median (own.filterMap ppsOf) with
      | error e =>
        rw [hmedian] at hfigure
        cases hfigure
      | ok mid =>
        rw [hmedian] at hfigure
        obtain rfl := Except.ok.inj hfigure
        obtain ⟨lo, hlo⟩ := Option.ne_none_iff_exists'.mp fun h => hnone (List.min?_eq_none_iff.mp h)
        obtain ⟨hi, hhi⟩ := Option.ne_none_iff_exists'.mp fun h => hnone (List.max?_eq_none_iff.mp h)
        obtain ⟨hlomem, hlole⟩ := List.min?_eq_some_iff.mp hlo
        obtain ⟨himem, hile⟩ := List.max?_eq_some_iff.mp hhi
        exact Or.inr ⟨lo, mid, hi, hlo, rfl, hhi, hlomem, himem,
          fun pps hpps => ⟨hlole pps hpps, hile pps hpps⟩, median_spec hmedian⟩

/-- A row fails only for a rate that is very large. -/
theorem summaryRow_error {name : CString} {own : List ExperimentResult} {e : MedianError}
    (h : summaryRow name own = .error e) :
    e = .overflowError ∧ ∃ result ∈ own, ∃ pps, ppsOf result = some pps ∧ 2 ^ 1023 < pps := by
  rw [summaryRow, medianFigure] at h
  by_cases hnone : own.filterMap ppsOf = []
  · rw [if_pos hnone] at h
    cases h
  · rw [if_neg hnone] at h
    cases hmedian : median (own.filterMap ppsOf) with
    | ok mid =>
      rw [hmedian] at h
      cases h
    | error e' =>
      rw [hmedian] at h
      obtain rfl : e' = e := Except.error.inj h
      obtain ⟨he, pps, hpps, hlarge⟩ := median_error hnone hmedian
      obtain ⟨result, hresult, hof⟩ := List.mem_filterMap.mp hpps
      exact ⟨he, result, hresult, pps, hof, hlarge⟩

section Traversal
variable {α β E : Type} {f : α → Except E β} {l : List α} {r : List β}

theorem mapM_ok (h : l.mapM f = .ok r) : List.Forall₂ (fun a b => f a = .ok b) l r := by
  induction l generalizing r with
  | nil =>
    obtain rfl := Except.ok.inj h
    exact .nil
  | cons a l ih =>
    rw [List.mapM_cons] at h
    cases ha : f a with
    | error e =>
      rw [ha] at h
      cases h
    | ok b =>
      cases hl : l.mapM f with
      | error e =>
        rw [ha, hl] at h
        cases h
      | ok r' =>
        rw [ha, hl] at h
        obtain rfl := Except.ok.inj h
        exact .cons ha (ih hl)

theorem mapM_error {e : E} (h : l.mapM f = .error e) : ∃ a ∈ l, f a = .error e := by
  induction l with
  | nil => cases h
  | cons a l ih =>
    rw [List.mapM_cons] at h
    cases ha : f a with
    | error e' =>
      rw [ha] at h
      obtain rfl : e' = e := Except.error.inj h
      exact ⟨a, List.mem_cons_self, ha⟩
    | ok b =>
      cases hl : l.mapM f with
      | error e' =>
        rw [ha, hl] at h
        obtain rfl : e' = e := Except.error.inj h
        obtain ⟨x, hx, hfx⟩ := ih hl
        exact ⟨x, List.mem_cons_of_mem _ hx, hfx⟩
      | ok r' =>
        rw [ha, hl] at h
        cases h

end Traversal

/-- **What a summary says of the results.** -/
structure Summarizes (results : List ExperimentResult) (rows : List SummaryRow) : Prop where
  /-- There is a row for each name, in the order in which the names come up. -/
  names : rows.map SummaryRow.name = keys ExperimentResult.name results
  row : ∀ row ∈ rows, RowOf (results.filter fun result => result.name = row.name) row
  samples : (rows.map SummaryRow.samples).sum = results.length
  cryptoOk : (rows.map SummaryRow.cryptoOk).sum = (results.map cryptoOkOf).sum
  malformed : (rows.map SummaryRow.malformed).sum = (results.map malformedOf).sum
  passed : (∀ row ∈ rows, row.passed = true) ↔ ∀ result ∈ results, result.returncode = 0

section Summary
variable {results : List ExperimentResult} {rows : List SummaryRow}

/-- A group is not empty, and it has the results of its name. -/
theorem mem_group_name {g : CString × List ExperimentResult}
    (h : g ∈ group ExperimentResult.name results) :
    g.2 = results.filter (fun result => result.name = g.1) ∧ g.2 ≠ [] := by
  rw [group_eq] at h
  obtain ⟨k, hk, rfl⟩ := List.mem_map.mp h
  obtain ⟨result, hresult, hname⟩ := mem_keys.mp hk
  exact ⟨rfl, List.ne_nil_of_mem (List.mem_filter.mpr ⟨hresult, decide_eq_true hname⟩)⟩

/-- The rows are those of the groups, one by one. -/
theorem rows_of_summarize (h : summarize results = .ok rows) :
    List.Forall₂ (fun row g => RowOf (results.filter fun result => result.name = row.name) row ∧
        row.name = g.1 ∧ g.2 = results.filter fun result => result.name = row.name)
      rows (group ExperimentResult.name results) := by
  have hmade := (List.forall₂_and_left _ _).mpr ⟨fun _ hg => mem_group_name hg, mapM_ok h⟩
  refine (hmade.imp fun g row hrow => ?_).flip
  obtain ⟨⟨hgroup, hne⟩, hmade⟩ := hrow
  obtain ⟨hname, hof⟩ := summaryRow_spec hne hmade
  rw [← hname] at hgroup
  exact ⟨hgroup ▸ hof, hname, hgroup⟩

theorem map_eq_of_forall₂ {α β γ : Type} {R : α → β → Prop} {f : α → γ} {g : β → γ} {l : List α}
    {l' : List β} (h : List.Forall₂ R l l') (hfg : ∀ a b, R a b → f a = g b) : l.map f = l'.map g := by
  induction h with
  | nil => rfl
  | cons hab _ ih => rw [List.map_cons, List.map_cons, hfg _ _ hab, ih]

theorem summarizes (h : summarize results = .ok rows) : Summarizes results rows := by
  have hrows := rows_of_summarize h
  have hrow := ((List.forall₂_and_left _ _).mp hrows).1
  have hnames : rows.map SummaryRow.name = keys ExperimentResult.name results := by
    rw [map_eq_of_forall₂ hrows fun row g h => h.2.1, group_eq, List.map_map]
    exact List.map_id _
  -- a total of the rows is one of the groups, and these make up all results
  have hsum : ∀ (f : ExperimentResult → Nat) (figure : SummaryRow → Nat),
      (∀ own row, RowOf own row → figure row = (own.map f).sum) →
        (rows.map figure).sum = (results.map f).sum := by
    intro f figure hfigure
    have hgroups : ((group ExperimentResult.name results).map fun g => (g.2.map f).sum).sum =
        (results.map f).sum := sum_group f results
    rw [← hgroups, map_eq_of_forall₂ hrows fun row g h => ?_]
    obtain ⟨hof, -, hgroup⟩ := h
    rw [hgroup]
    exact hfigure _ row hof
  constructor
  · exact hnames
  · exact hrow
  · have hones := hsum (fun _ => 1) SummaryRow.samples fun own row h => by simp [h.samples]
    simpa using hones
  · exact hsum cryptoOkOf SummaryRow.cryptoOk fun _ _ h => h.cryptoOk
  · exact hsum malformedOf SummaryRow.malformed fun _ _ h => h.malformed
  · constructor
    · intro hall result hresult
      have hname : result.name ∈ rows.map SummaryRow.name := by
        rw [hnames]
        exact mem_keys.mpr ⟨result, hresult, rfl⟩
      obtain ⟨row, hmem, hname⟩ := List.mem_map.mp hname
      exact (hrow row hmem).passed.mp (hall row hmem) result
        (List.mem_filter.mpr ⟨hresult, decide_eq_true hname.symm⟩)
    · intro hall row hmem
      exact (hrow row hmem).passed.mpr fun result hresult =>
        hall result (List.mem_of_mem_filter hresult)

/-- **There is a summary**, unless a rate is so large that its half is no floating-point number. -/
theorem summarize_error {e : MedianError} (h : summarize results = .error e) :
    e = .overflowError ∧ ∃ result ∈ results, ∃ pps, ppsOf result = some pps ∧ 2 ^ 1023 < pps := by
  obtain ⟨g, hg, herror⟩ := mapM_error h
  obtain ⟨he, result, hresult, hlarge⟩ := summaryRow_error herror
  rw [(mem_group_name hg).1] at hresult
  exact ⟨he, result, List.mem_of_mem_filter hresult, hlarge⟩

end Summary

/-! ## Results of runs -/

section Log
variable {texts : List CString}

theorem splitLines_flatten (h : ∀ text ∈ texts, OneLine text) :
    splitLines 0 [] texts.flatten = texts.map List.dropLast := by
  induction texts with
  | nil => rfl
  | cons text texts ih =>
    obtain ⟨body, rfl, hbody⟩ := h text List.mem_cons_self
    rw [List.flatten_cons, List.append_assoc, List.singleton_append, splitLines_line hbody,
      ih fun t ht => h t (List.mem_cons_of_mem _ ht), List.map_cons, List.dropLast_concat,
      List.nil_append]

theorem logText_flatten (hline : ∀ text ∈ texts, OneLine text) (hshort : ∀ text ∈ texts, text.length ≤ 900) :
    LogText texts.flatten where
  ascii := by
    intro b hb
    obtain ⟨text, htext, hb⟩ := List.mem_flatten.mp hb
    obtain ⟨body, rfl, hbody⟩ := hline text htext
    rcases List.mem_append.mp hb with hb | hb
    · exact UInt8.lt_trans (hbody b hb).2 (by decide)
    · rw [List.mem_singleton.mp hb]
      decide
  lines := by
    rw [splitLines_flatten hline]
    intro line hmem
    obtain ⟨text, htext, rfl⟩ := List.mem_map.mp hmem
    have hle := hshort text htext
    rw [List.length_dropLast]
    omega

/-- The arguments of an event, of which its JSON line holds no more than fits the buffer. -/
theorem sum_args_le (event : EbafCryptoEvent) : (event.args.map List.length).sum ≤ 512 := by
  have hlt := json_length_lt event
  have hcount : eventTails.length = event.args.length := by
    simp only [eventTails, EbafCryptoEvent.args, List.length_cons, List.length_nil]
  rw [json_eq, List.length_append, length_fill hcount, eventLineMax] at hlt
  omega

theorem length_text_le (cfg : EbafUserConfig) (item : Printed) : (item.text cfg).length ≤ 900 := by
  cases item with
  | stats now found total =>
    -- twelve counters of at most twenty digits
    have hvalue : ∀ n ∈ ((statsEntries total).map fun entry => decimal entry.2).map List.length, n ≤ 20 := by
      intro n hn
      obtain ⟨digits, hdigits, rfl⟩ := List.mem_map.mp hn
      obtain ⟨entry, hentry, rfl⟩ := List.mem_map.mp hdigits
      obtain ⟨c, -, rfl⟩ := List.mem_map.mp hentry
      exact length_decimal_uint64 _
    have hsum := List.sum_le_card_nsmul _ 20 hvalue
    have hnames : (((statsEntries total).tail.map (fun entry => lit " " ++ (entry.1 ++ lit "=")) ++
        [lit "\n"]).map List.length).sum = 123 := rfl
    have hhead : (lit "seen=").length = 5 := by decide
    have hcount : ((statsEntries total).tail.map (fun entry => lit " " ++ (entry.1 ++ lit "=")) ++
        [lit "\n"]).length = (decimal (total .packetsSeen).toNat ::
          (statsEntries total).tail.map fun entry => decimal entry.2).length := rfl
    rw [Printed.text, statsLine_eq, List.length_append, length_fill hcount, hnames, hhead]
    have htwelve : (statsEntries total).length = 12 := rfl
    rw [List.length_map, List.length_map, htwelve, smul_eq_mul] at hsum
    have hargs : decimal (total .packetsSeen).toNat :: (statsEntries total).tail.map (fun entry =>
        decimal entry.2) = (statsEntries total).map fun entry => decimal entry.2 := rfl
    rw [hargs]
    omega
  | event ev =>
    rw [Printed.text]
    cases cfg.outputJsonl with
    | true =>
      have hlt := json_length_lt ev
      rw [handleCryptoEvent_jsonl ev (Nat.le_refl _), List.length_append]
      rw [eventLineMax] at hlt
      have hend : (lit "\n").length = 1 := by decide
      omega
    | false =>
      have hargs := sum_args_le ev
      have hcount : eventTextTails.length = ev.args.length := by
        simp only [eventTextTails, EbafCryptoEvent.args, List.length_cons, List.length_nil]
      have hhead : (lit "event ts=").length = 9 := by decide
      have htails : (eventTextTails.map List.length).sum = 44 := by decide
      rw [handleCryptoEvent_text, List.length_append, List.length_append, length_fill hcount, hhead,
        htails, List.length_singleton]
      omega

/-- **The output of a run is a log.** -/
theorem logText_stdoutOf (cfg : EbafUserConfig) (outs : List Output) : LogText (stdoutOf cfg outs) := by
  refine logText_flatten oneLine_printed fun text htext => ?_
  obtain ⟨out, -, rfl⟩ := List.mem_map.mp htext
  exact length_text_le cfg out.item

end Log

section Measured
variable {Ctx : Type} {cpus : Nat} {K : CryptoKernel Ctx} {cfg : EbafUserConfig}
  {acts : List (MainAct Ctx cpus)} {s : MainState Ctx cpus} {result : ExperimentResult}

/-- What the output of a run adds: the counter printed last and the events. -/
theorem LogRead.cryptoOkOf (h : LogRead K cfg acts s result.stdout) : cryptoOkOf result =
    ((lastTotals s.printed).map fun t => (t.1 .packetsCryptoOk).toNat).getD 0 +
      if cfg.outputJsonl then (printedEvents s.printed).length else 0 := by
  have hcounter : parseLastCounter result.stdout (lit "crypto_ok") = _ := h.counters .packetsCryptoOk
  rw [Ebaf.cryptoOkOf, hcounter, countPacketEvents_eq, h.events]
  split
  · rw [List.length_map]
  · rfl

/-- **With events a packet is counted twice**: once by the counter and once as an event. -/
theorem LogRead.countedTwice (h : LogRead K cfg acts s result.stdout) (hjson : cfg.outputJsonl = true)
    (hroom : ∀ x ∈ s.crossed, x.env.fails .ringbufReserve = false) (hring : s.ring = [])
    {total : EbafCryptoStats} (hlast : lastTotals s.printed = some (total, true, s.crossed.length)) :
    Ebaf.cryptoOkOf result =
      (s.crossed.countP fun x => x.counted K) % 2 ^ 64 + s.crossed.countP fun x => x.counted K := by
  obtain ⟨-, htells⟩ := h.totals total true s.crossed.length hlast
  have hok : total .packetsCryptoOk = _ := htells.2
  rw [List.take_length] at hok
  have hcounter : parseLastCounter result.stdout (lit "crypto_ok") = _ := h.counters .packetsCryptoOk
  rw [Ebaf.cryptoOkOf, hcounter, hlast, h.countEq hjson hroom hring]
  show (total .packetsCryptoOk).toNat + _ = _
  rw [hok, UInt64.toNat_ofNat']

end Measured

/-- **The summary of an experiment.**  For every list of results there is a row for each
name, in the order of their first appearance, and it has the sums, the verdict and the
smallest, middle and largest rate of the results of that name; no result is lost or
counted twice.  The script fails only with an overflow, and only for a rate above
`2 ^ 1023`.  A result whose output is that of a run of `main` adds the counter printed
last and the events that were printed, which are the same packets again once all are
printed, no event was dropped and the statistics were found after the last packet. -/
theorem summary_of_runs (results : List ExperimentResult) :
    (∀ rows, summarize results = .ok rows → Summarizes results rows) ∧
    (∀ e, summarize results = .error e → e = .overflowError ∧
      ∃ result ∈ results, ∃ pps, ppsOf result = some pps ∧ 2 ^ 1023 < pps) ∧
    ∀ (Other Ctx : Type) (K : CryptoKernel Ctx) (k : LoaderKernel Other Ctx) (cfg : EbafUserConfig)
      (cpus : Nat) (startTime : Int) (acts : List (MainAct Ctx cpus)) (s : MainState Ctx cpus),
      run (MainState.step K k cfg) (.init startTime) acts = some s →
      LogText (stdoutOf cfg s.printed) ∧
      ∀ result ∈ results, result.stdout = stdoutOf cfg s.printed →
        cryptoOkOf result =
            ((lastTotals s.printed).map fun t => (t.1 .packetsCryptoOk).toNat).getD 0 +
              (if cfg.outputJsonl then (printedEvents s.printed).length else 0) ∧
          (cfg.outputJsonl = true → (∀ x ∈ s.crossed, x.env.fails .ringbufReserve = false) →
            s.ring = [] → ∀ total, lastTotals s.printed = some (total, true, s.crossed.length) →
              cryptoOkOf result =
                (s.crossed.countP fun x => x.counted K) % 2 ^ 64 +
                  s.crossed.countP fun x => x.counted K) := by
  refine ⟨fun _ => summarizes, fun _ => summarize_error, ?_⟩
  intro Other Ctx K k cfg cpus startTime acts s hrun
  refine ⟨logText_stdoutOf cfg s.printed, fun result _ hstdout => ?_⟩
  have hread := logRead_run hrun
  rw [← hstdout] at hread
  exact ⟨hread.cryptoOkOf, fun hjson hroom hring total hlast =>
    hread.countedTwice hjson hroom hring hlast⟩

/-- The output with the block. -/
def blockResult : ExperimentResult :=
  ⟨lit "block", stdoutOf jsonlConfig blockEnd.printed, 0, none, none, none, [], logText_stdoutOf _ _⟩

/-- The output of a run in which nothing was printed. -/
def idleResult : ExperimentResult :=
  ⟨lit "idle", stdoutOf jsonlConfig [], 0, none, none, none, [], logText_stdoutOf _ _⟩

theorem summary_of_block : ∃ rows,
    run (MainState.step (knownKernel _) blockStart.kernel jsonlConfig) (.init 100) blockActs =
      some blockEnd ∧
    summarize [blockResult, idleResult] = .ok rows ∧ cryptoOkOf blockResult = 2 ∧
    (rows.map SummaryRow.cryptoOk).sum = 2 := by
  obtain ⟨hsummary, herror, hruns⟩ := summary_of_runs [blockResult, idleResult]
  have hroom : ∀ x ∈ blockEnd.crossed, x.env.fails .ringbufReserve = false :=
    List.forall_mem_singleton.mpr rfl
  obtain ⟨-, hread⟩ := hruns Unit BpfCryptoParams (knownKernel _) blockStart.kernel jsonlConfig 1 100
    blockActs blockEnd run_blockActs
  have htwo := (hread blockResult List.mem_cons_self rfl).2 rfl hroom ring_blockEnd blockTotal
    lastTotals_blockEnd
  have hcrossed : blockEnd.crossed = [blockCrossing] := rfl
  rw [hcrossed, List.countP_singleton, counted_blockCrossing] at htwo
  have hidle : cryptoOkOf idleResult = 0 := rfl
  cases hrows : summarize [blockResult, idleResult] with
  | error e =>
    -- no rate is in the outputs
    have hnone : ∀ result ∈ [blockResult, idleResult], ppsOf result = none := by decide +kernel
    obtain ⟨-, result, hmem, pps, hpps, -⟩ := herror e hrows
    rw [hnone result hmem] at hpps
    cases hpps
  | ok rows =>
    refine ⟨rows, run_blockActs, rfl, htwo, ?_⟩
    rw [(hsummary rows hrows).cryptoOk, List.map_cons, List.map_singleton, List.sum_cons, htwo, hidle]
    rfl

end Ebaf
