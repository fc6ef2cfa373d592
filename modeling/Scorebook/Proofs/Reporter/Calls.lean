import Scorebook.Proofs.Reporter.Counting
import Scorebook.Proofs.Reporter.Hearing
import Scorebook.Proofs.Reporter.Obliging

/-!
# Every problem is heard once

A reporter lives through handlers that come and go and through problems of many texts, all of which
share one line table and one memory of marks. What a call does depends on two things only: who
listens, which is the handler installed last, and whether a report of the same verdict at the same
line and column was passed on before, to whomever. The invariant is that the marks remembered are
those of the reports passed on, no more (a problem met while nobody listens leaves none) and no
less. A mark tells line and column as they are counted by hand, as long as a key stands for one
text; where it does not, a problem can stay unheard.
-/

namespace Scorebook

/-! ## Occurrences -/

/-- A verdict, a line and a column. -/
structure Occurrence where
  verdict : Verdict
  line : Nat
  column : Nat
deriving DecidableEq, Repr

/-- What a report says of where and what its problem is. -/
def Report.occurrence (report : Report) : Occurrence :=
  ⟨report.verdict, report.place.line, report.place.column.toNat⟩

/-- What and where a problem is by plain counting, its start cut to the text. A problem without a
range is at line and column zero. -/
def Problem.occurrence (t : Text) (p : Problem) : Occurrence :=
  match p.span? with
  | some span =>
    ⟨p.verdict, t.lineOf (min span.start t.size), t.columnOf (min span.start t.size)⟩
  | none => ⟨p.verdict, 0, 0⟩

/-- Reports have the same mark if they occur in the same place. -/
theorem Report.mark_eq_iff (report report' : Report) :
    (⟨report.verdict, report.place⟩ : Mark) = ⟨report'.verdict, report'.place⟩ ↔
      report.occurrence = report'.occurrence := by
  rcases report with ⟨_, _, _, ⟨line, column⟩, _⟩
  rcases report' with ⟨_, _, _, ⟨line', column'⟩, _⟩
  simp [occurrence, UInt32.toNat_inj]

namespace Reporter

/-- A report occurs where its problem does. -/
theorem occurrence_reportOf {t : Text} (hfit : t.LinesFit) (p : Problem) :
    (reportOf t p).occurrence = p.occurrence t := by
  unfold Report.occurrence reportOf Problem.place Problem.occurrence
  cases p.span? with
  | none => rfl
  | some span =>
    simp only [LineTable.placeAt_line, LineTable.placeAt_column hfit (Nat.min_le_right ..)]

/-! ## Calls -/

/-- What is asked of a reporter. Texts are named by their keys. -/
inductive Call
  /-- Install a handler, or none. -/
  | listen (handler : Option Handler)
  /-- Report a problem of a text. -/
  | report (key : Nat) (problem : Problem)

/-- The handler that is installed after these calls. -/
def installed (calls : List Call) : Option Handler :=
  calls.foldl (fun handler call =>
    match call with
    | .listen handler => handler
    | .report .. => handler) none

variable {texts : Nat → Text} {before : List Call} {r : Reporter}

/-- One call. -/
def take (texts : Nat → Text) (r : Reporter) : Call → Reporter
  | .listen handler => r.setHandler handler
  | .report key p => (r.report ⟨key, texts key⟩ p).2

/-- The reporter after these calls. -/
def after (texts : Nat → Text) (calls : List Call) : Reporter :=
  calls.foldl (take texts) empty

/-- The answer to one more report. -/
def answer (texts : Nat → Text) (before : List Call) (key : Nat) (p : Problem) : Option Failure :=
  ((after texts before).report ⟨key, texts key⟩ p).1

/-- One more report invokes this handler with this report, the one of this number. -/
structure Invokes (texts : Nat → Text) (before : List Call) (key : Nat) (p : Problem)
    (handler : Handler) (number : Nat) (report : Report) : Prop where
  handler : (after texts before).handler = some handler
  number : (after texts (before ++ [.report key p])).calls = number
  delivered : (after texts (before ++ [.report key p])).delivered.toList =
    (after texts before).delivered.toList ++ [report]

/-- The report was passed on by one of these calls. -/
def PassedOn (texts : Nat → Text) (calls : List Call) (report : Report) : Prop :=
  ∃ earlier key p later handler number, calls = earlier ++ .report key p :: later ∧
    Invokes texts earlier key p handler number report

/-- Calls are taken one behind the other. -/
theorem after_append (texts : Nat → Text) (before calls : List Call) :
    after texts (before ++ calls) = calls.foldl (take texts) (after texts before) :=
  List.foldl_append

/-- The last handler that was installed is the one that listens. -/
theorem installed_append (before : List Call) (call : Call) :
    installed (before ++ [call]) =
      match call with
      | .listen handler => handler
      | .report .. => installed before := by
  rw [installed, List.foldl_append]
  rfl

/-! ## What the reporter remembers -/

/-- A report of the same verdict at the same line and column was passed on. -/
def Heard (r : Reporter) (t : Text) (p : Problem) : Prop :=
  ∃ report ∈ r.delivered.toList, report.occurrence = p.occurrence t

/-- The reporter listens and remembers as these calls left it. -/
structure Accounts (texts : Nat → Text) (calls : List Call) (r : Reporter) : Prop where
  handler : r.handler = installed calls
  lines : r.lines.Sound texts
  seen : ∀ report : Report, (⟨report.verdict, report.place⟩ : Mark) ∈ r.seen ↔
    ∃ earlier ∈ r.delivered.toList, earlier.occurrence = report.occurrence

/-- The failure that a problem amounts to whatever anybody says. -/
def inevitable (p : Problem) : Option Failure :=
  if p.isCritical then some (.fatal p) else none

/-- The ways a report can go: nobody listens, the occurrence was heard of before, or the problem is
passed on and the handler decides. -/
inductive Told (texts : Nat → Text) (key : Nat) (p : Problem) (r : Reporter) :
    Option Failure × Reporter → Prop
  | unattended (hnone : r.handler = none) : Told texts key p r (inevitable p, r)
  | known {handler : Handler} (hsome : r.handler = some handler) (hheard : r.Heard (texts key) p)
      {lines : LineTable} (hlines : lines.Sound texts) :
      Told texts key p r (inevitable p, { r with lines })
  | passed {handler : Handler} (hsome : r.handler = some handler)
      (hfresh : ¬ r.Heard (texts key) p) {lines : LineTable} (hlines : lines.Sound texts) :
      Told texts key p r
        (if p.isCritical then some (.fatal p)
          else if handler.accepts (r.calls + 1) (reportOf (texts key) p) then none
          else some (.aborted p),
        { r with
          calls := r.calls + 1
          seen := r.seen.insert (p.mark (texts key))
          lines
          delivered := r.delivered.push (reportOf (texts key) p) })

/-- However a report goes, the line table stays sound. -/
theorem Told.sound {key : Nat} {p : Problem} {told : Option Failure × Reporter}
    (h : Told texts key p r told) (hlines : r.lines.Sound texts) : told.2.lines.Sound texts := by
  cases h with
  | unattended => exact hlines
  | known _ _ hlines | passed _ _ hlines => exact hlines

/-- However a report goes, the marks seen stay those of the reports passed on. -/
theorem Told.mark_mem_iff {key : Nat} {p : Problem} {told : Option Failure × Reporter}
    (h : Told texts key p r told)
    (hseen : ∀ report : Report, (⟨report.verdict, report.place⟩ : Mark) ∈ r.seen ↔
      ∃ earlier ∈ r.delivered.toList, earlier.occurrence = report.occurrence) (report : Report) :
    (⟨report.verdict, report.place⟩ : Mark) ∈ told.2.seen ↔
      ∃ earlier ∈ told.2.delivered.toList, earlier.occurrence = report.occurrence := by
  cases h with
  | unattended | known => exact hseen report
  | passed =>
    -- One mark is added, and it is the mark of the one report that is added.
    rw [Std.HashSet.mem_insert, beq_iff_eq, hseen, Array.toList_push]
    simp only [List.mem_append, List.mem_singleton, or_and_right, exists_or, exists_eq_left]
    rw [or_comm]
    exact or_congr_right (Report.mark_eq_iff (reportOf (texts key) p) report)

/-- Before the first call there is nothing to account for. -/
theorem Accounts.empty (texts : Nat → Text) : Accounts texts [] .empty where
  handler := rfl
  lines := .empty texts
  seen report := by simp [Reporter.empty]

variable (hfit : ∀ key, (texts key).LinesFit)
include hfit

/-- A reporter that accounts for the calls tells of the next problem as it should. -/
theorem Accounts.told (h : Accounts texts before r) (key : Nat) (p : Problem) :
    Told texts key p r (r.report ⟨key, texts key⟩ p) := by
  unfold report
  cases hhandler : r.handler with
  | none => simpa only [inevitable, if_true] using Told.unattended hhandler
  | some handler =>
    have hmark : p.mark (texts key) ∈ r.seen ↔ r.Heard (texts key) p := by
      rw [Heard, ← occurrence_reportOf (hfit key) p]
      exact h.seen (reportOf (texts key) p)
    have hbuffer : texts (Buffer.mk key (texts key)).key = (Buffer.mk key (texts key)).text := rfl
    obtain ⟨lines, hlines, hdeliver⟩ := deliver_eq h.lines hbuffer handler p
    by_cases hseen : p.mark (texts key) ∈ r.seen
    · simpa only [hdeliver, if_pos hseen, inevitable, if_true] using
        Told.known hhandler (hmark.1 hseen) hlines
    · simpa only [hdeliver, if_neg hseen] using
        Told.passed hhandler (fun hheard => hseen (hmark.2 hheard)) hlines

/-- The account is kept by every call. -/
theorem Accounts.take (h : Accounts texts before r) (call : Call) :
    Accounts texts (before ++ [call]) (r.take texts call) := by
  cases call with
  | listen handler => exact ⟨by rw [installed_append]; rfl, h.lines, h.seen⟩
  | report key p =>
    have htold := h.told hfit key p
    refine ⟨?_, htold.sound h.lines, htold.mark_mem_iff h.seen⟩
    rw [installed_append]
    exact (r.report_handler _ p).trans h.handler

/-- After any calls the reporter has kept account of them. -/
theorem accounts_after (calls : List Call) : Accounts texts calls (after texts calls) := by
  have hrun (calls before : List Call) {r : Reporter} (h : Accounts texts before r) :
      Accounts texts (before ++ calls) (calls.foldl (take texts) r) := by
    induction calls generalizing before r with
    | nil => rwa [List.append_nil]
    | cons call rest ih =>
      rw [List.append_cons]
      exact ih (before ++ [call]) (h.take hfit call)
  exact hrun calls [] (.empty texts)

/-- After any calls the next problem is told of as it should be. -/
theorem told_after (before : List Call) (key : Nat) (p : Problem) :
    Told texts key p (after texts before)
      (answer texts before key p, after texts (before ++ [.report key p])) := by
  rw [after_append]
  exact (accounts_after hfit before).told hfit key p

/-! ## Invocations -/

/-- Who is invoked, and with what. -/
theorem invokes_iff {key number : Nat} {p : Problem} {handler : Handler} {report : Report} :
    Invokes texts before key p handler number report ↔
      installed before = some handler ∧ ¬ (after texts before).Heard (texts key) p ∧
        number = (after texts before).calls + 1 ∧ report = reportOf (texts key) p := by
  have hhandler := (accounts_after hfit before).handler
  have htold := told_after hfit before key p
  -- A call that delivers nothing invokes nobody.
  have hsilent {r : Reporter} (hafter : after texts (before ++ [.report key p]) = r)
      (hsame : r.delivered = (after texts before).delivered) :
      ¬ Invokes texts before key p handler number report := by
    intro h
    have hlength := congrArg List.length h.delivered
    rw [hafter, hsame, List.length_append] at hlength
    exact absurd hlength (by simp)
  generalize hresult : after texts (before ++ [.report key p]) = r' at htold
  generalize answer texts before key p = failure at htold
  -- By the ways the report can go, of which one invokes the handler that is installed.
  cases htold with
  | unattended hnone =>
    refine iff_of_false (hsilent hresult rfl) fun ⟨hsome, _⟩ => ?_
    rw [← hhandler, hnone] at hsome
    cases hsome
  | known _ hheard => exact iff_of_false (hsilent hresult rfl) fun ⟨_, hfresh, _⟩ => hfresh hheard
  | @passed listener hsome hfresh =>
    constructor
    · intro h
      refine ⟨hhandler ▸ h.handler, hfresh, ?_, ?_⟩
      · rw [← h.number, hresult]
      · have hdelivered := h.delivered
        rw [hresult, Array.toList_push] at hdelivered
        exact (List.singleton_inj.1 (List.append_cancel_left hdelivered)).symm
    · rintro ⟨hinstalled, -, rfl, rfl⟩
      refine ⟨hhandler.trans hinstalled, by rw [hresult], ?_⟩
      rw [hresult, Array.toList_push]

/-- A call passes on one report, or none. -/
theorem delivered_step (before : List Call) (call : Call) :
    (after texts (before ++ [call])).delivered = (after texts before).delivered ∨
      ∃ key p handler number report, call = .report key p ∧
        Invokes texts before key p handler number report := by
  cases call with
  | listen handler => rw [after_append]; exact .inl rfl
  | report key p =>
    have htold := told_after hfit before key p
    have hhandler := (accounts_after hfit before).handler
    generalize hresult : after texts (before ++ [.report key p]) = r' at htold
    generalize answer texts before key p = failure at htold
    cases htold with
    | unattended | known => exact .inl rfl
    | passed hsome hfresh =>
      exact .inr ⟨key, p, _, _, _, rfl,
        (invokes_iff hfit).2 ⟨hhandler ▸ hsome, hfresh, rfl, rfl⟩⟩

/-- The reports delivered are those of the invocations so far. -/
theorem mem_delivered_iff {report : Report} :
    report ∈ (after texts before).delivered.toList ↔ PassedOn texts before report := by
  -- What was delivered stays so, whatever is called later.
  have hkept (before calls : List Call) (h : report ∈ (after texts before).delivered.toList) :
      report ∈ (after texts (before ++ calls)).delivered.toList := by
    induction calls generalizing before with
    | nil => rwa [List.append_nil]
    | cons call rest ih =>
      rw [List.append_cons]
      apply ih
      rcases delivered_step hfit before call with hsame | ⟨_, _, _, _, _, rfl, hinvokes⟩
      · rwa [hsame]
      · rw [hinvokes.delivered]
        exact List.mem_append_left _ h
  -- What is delivered in the end was so at the start, or one of the calls passed it on.
  have hfound (calls before : List Call)
      (h : report ∈ (after texts (before ++ calls)).delivered.toList) :
      report ∈ (after texts before).delivered.toList ∨ PassedOn texts (before ++ calls) report := by
    induction calls generalizing before with
    | nil => rw [List.append_nil] at h; exact .inl h
    | cons call rest ih =>
      rw [List.append_cons] at h ⊢
      rcases ih (before ++ [call]) h with h | h
      · rcases delivered_step hfit before call with hsame | ⟨key, p, _, _, _, rfl, hinvokes⟩
        · exact .inl (hsame ▸ h)
        · rw [hinvokes.delivered, List.mem_append, List.mem_singleton] at h
          rcases h with h | rfl
          · exact .inl h
          · rw [← List.append_cons]
            exact .inr ⟨before, key, p, rest, _, _, rfl, hinvokes⟩
      · exact .inr h
  constructor
  · intro h
    exact (hfound before [] h).resolve_left List.not_mem_nil
  · rintro ⟨earlier, key, p, later, handler, number, rfl, hinvokes⟩
    rw [List.append_cons]
    apply hkept
    rw [hinvokes.delivered]
    exact List.mem_append_right _ (List.mem_singleton.2 rfl)

/-! ## Once, and with the right answer -/

/-- A critical problem fails whoever listens. -/
theorem answer_of_critical {key : Nat} {p : Problem} (hcritical : p.isCritical = true) :
    answer texts before key p = some (.fatal p) := by
  have htold := told_after hfit before key p
  generalize after texts (before ++ [.report key p]) = r' at htold
  generalize answer texts before key p = failure at htold ⊢
  cases htold with
  | unattended | known => rw [inevitable, if_pos hcritical]
  | passed => rw [if_pos hcritical]

/-- A problem that is not critical stops only whoever's own report was turned down. -/
theorem answer_of_recoverable {key : Nat} {p : Problem} (hrecoverable : p.isCritical = false) :
    answer texts before key p = some (.aborted p) ∧
        (∃ handler number report, Invokes texts before key p handler number report ∧
          handler.accepts number report = false) ∨
      answer texts before key p = none ∧
        ∀ handler number report, Invokes texts before key p handler number report →
          handler.accepts number report = true := by
  have htold := told_after hfit before key p
  have hhandler := (accounts_after hfit before).handler
  have hplain : ¬ p.isCritical = true := by simp [hrecoverable]
  generalize after texts (before ++ [.report key p]) = r' at htold
  generalize answer texts before key p = failure at htold ⊢
  -- Without a critical problem only the handler that is invoked can refuse.
  cases htold with
  | unattended hnone =>
    refine .inr ⟨if_neg hplain, fun handler number report h => ?_⟩
    rw [h.handler] at hnone
    cases hnone
  | known _ hheard =>
    exact .inr ⟨if_neg hplain,
      fun handler number report h => absurd hheard ((invokes_iff hfit).1 h).2.1⟩
  | @passed listener hsome hfresh =>
    rw [if_neg hplain]
    cases haccepts : listener.accepts ((after texts before).calls + 1) (reportOf (texts key) p) with
    | true =>
      refine .inr ⟨if_pos rfl, fun handler number report h => ?_⟩
      obtain ⟨hinstalled, -, rfl, rfl⟩ := (invokes_iff hfit).1 h
      obtain rfl : listener = handler := by
        rw [← hhandler, hsome] at hinstalled
        exact Option.some.inj hinstalled
      exact haccepts
    | false =>
      exact .inl ⟨if_neg Bool.false_ne_true, listener, _, _,
        (invokes_iff hfit).2 ⟨hhandler ▸ hsome, hfresh, rfl, rfl⟩, haccepts⟩

/-- Only a critical problem is fatal. -/
theorem answer_eq_fatal_iff {key : Nat} {p : Problem} :
    answer texts before key p = some (.fatal p) ↔ p.isCritical = true := by
  refine ⟨fun h => ?_, answer_of_critical hfit⟩
  cases hcritical : p.isCritical with
  | true => rfl
  | false =>
    have hanswer : answer texts before key p = some (.aborted p) ∧ _ ∨
        answer texts before key p = none ∧ _ := answer_of_recoverable hfit hcritical
    rcases hanswer with ⟨h', -⟩ | ⟨h', -⟩ <;> rw [h'] at h <;> cases h

/-- Only a handler that was told of the problem and declined aborts. -/
theorem answer_eq_aborted_iff {key : Nat} {p : Problem} :
    answer texts before key p = some (.aborted p) ↔ p.isCritical = false ∧
      ∃ handler number report, Invokes texts before key p handler number report ∧
        handler.accepts number report = false := by
  cases hcritical : p.isCritical with
  | true =>
    rw [answer_of_critical hfit hcritical]
    exact iff_of_false nofun nofun
  | false =>
    have hanswer : answer texts before key p = some (.aborted p) ∧ _ ∨
        answer texts before key p = none ∧ _ := answer_of_recoverable hfit hcritical
    rcases hanswer with ⟨h, hdeclined⟩ | ⟨h, haccepted⟩
    · exact iff_of_true h ⟨rfl, hdeclined⟩
    · refine iff_of_false (by rw [h]; nofun) ?_
      rintro ⟨-, handler, number, report, hinvokes, hdeclined⟩
      rw [haccepted handler number report hinvokes] at hdeclined
      cases hdeclined

/-- A problem is heard of before if a report of the same occurrence was passed on. -/
theorem heard_iff {key : Nat} {p : Problem} :
    (after texts before).Heard (texts key) p ↔
      ∃ report, PassedOn texts before report ∧ report.occurrence = p.occurrence (texts key) := by
  simp only [Heard, mem_delivered_iff hfit]

/-- A report goes to whoever listens unless one of its verdict, line and column was passed on
before, to anybody. It fails for good exactly if its problem is critical, and asks to stop exactly
if this very report was passed on and turned down. So nothing is asked to stop twice for one
occurrence. -/
theorem heard_once_and_answered (before : List Call) (key : Nat) (p : Problem) :
    ((∃ handler number report, Invokes texts before key p handler number report) ↔
        (installed before).isSome = true ∧
          ∀ report, PassedOn texts before report → report.occurrence ≠ p.occurrence (texts key)) ∧
      (∀ handler number report, Invokes texts before key p handler number report →
        installed before = some handler ∧ report = reportOf (texts key) p ∧
          report.occurrence = p.occurrence (texts key)) ∧
      (answer texts before key p = some (.fatal p) ↔ p.isCritical = true) ∧
      (answer texts before key p = some (.aborted p) ↔ p.isCritical = false ∧
        ∃ handler number report, Invokes texts before key p handler number report ∧
          handler.accepts number report = false) ∧
      (answer texts before key p = none ∨ answer texts before key p = some (.fatal p) ∨
        answer texts before key p = some (.aborted p)) ∧
      ∀ earlier key' q between, before = earlier ++ .report key' q :: between →
        q.occurrence (texts key') = p.occurrence (texts key) →
        answer texts earlier key' q = some (.aborted q) →
          answer texts before key p ≠ some (.aborted p) := by
  refine ⟨?invoked, ?told, answer_eq_fatal_iff hfit, answer_eq_aborted_iff hfit, ?answers, ?twice⟩
  case invoked =>
    rw [Option.isSome_iff_exists]
    constructor
    · rintro ⟨handler, number, report, h⟩
      obtain ⟨hinstalled, hfresh, -⟩ := (invokes_iff hfit).1 h
      exact ⟨⟨handler, hinstalled⟩,
        fun report hpassed heq => hfresh ((heard_iff hfit).2 ⟨report, hpassed, heq⟩)⟩
    · rintro ⟨⟨handler, hinstalled⟩, hfresh⟩
      refine ⟨handler, _, _, (invokes_iff hfit).2 ⟨hinstalled, fun h => ?_, rfl, rfl⟩⟩
      obtain ⟨report, hpassed, heq⟩ := (heard_iff hfit).1 h
      exact hfresh report hpassed heq
  case told =>
    intro handler number report h
    obtain ⟨hinstalled, -, -, rfl⟩ := (invokes_iff hfit).1 h
    exact ⟨hinstalled, rfl, occurrence_reportOf (hfit key) p⟩
  case answers =>
    cases hcritical : p.isCritical with
    | true => exact .inr (.inl (answer_of_critical hfit hcritical))
    | false =>
      rcases answer_of_recoverable hfit hcritical with h | h
      · exact .inr (.inr h.1)
      · exact .inl h.1
  case twice =>
    -- If both were refused, both invoked a handler, but the first report is known by then.
    intro earlier key' q between hbefore hsame hfirst hsecond
    obtain ⟨-, handler, number, report, hinvokes, -⟩ := (answer_eq_aborted_iff hfit).1 hfirst
    obtain ⟨-, _, _, _, hagain, -⟩ := (answer_eq_aborted_iff hfit).1 hsecond
    obtain ⟨-, -, -, rfl⟩ := (invokes_iff hfit).1 hinvokes
    refine ((invokes_iff hfit).1 hagain).2.1 ((heard_iff hfit).2 ⟨reportOf (texts key') q, ?_, ?_⟩)
    · exact ⟨earlier, key', q, between, handler, number, hbefore, hinvokes⟩
    · rw [occurrence_reportOf (hfit key'), hsame]

omit hfit

/-- Somebody who turns down everything hears of a bad move and stops; told of it again, he does
not. -/
theorem heard_once_and_answered_declined :
    (∀ _ : Nat, (Text.ofBytes ⟨#[0x31, 0x2e, 0x0a, 0x65, 0x39]⟩).LinesFit) ∧
      answer (fun _ => .ofBytes ⟨#[0x31, 0x2e, 0x0a, 0x65, 0x39]⟩)
          [.listen (some ⟨fun _ _ => false⟩)] 0 (.fault .badSan ⟨3, 5⟩) =
        some (.aborted (.fault .badSan ⟨3, 5⟩)) ∧
      answer (fun _ => .ofBytes ⟨#[0x31, 0x2e, 0x0a, 0x65, 0x39]⟩)
          [.listen (some ⟨fun _ _ => false⟩), .report 0 (.fault .badSan ⟨3, 5⟩)] 0
          (.fault .badSan ⟨3, 5⟩) ≠
        some (.aborted (.fault .badSan ⟨3, 5⟩)) := by
  have hfit : ∀ _ : Nat, (Text.ofBytes ⟨#[0x31, 0x2e, 0x0a, 0x65, 0x39]⟩).LinesFit :=
    fun _ => .of_size_lt (by decide)
  obtain ⟨hinvoked, htold, -, haborted, -, -⟩ := heard_once_and_answered hfit
    [.listen (some ⟨fun _ _ => false⟩)] 0 (.fault .badSan ⟨3, 5⟩)
  obtain ⟨-, -, -, -, -, htwice⟩ := heard_once_and_answered hfit
    [.listen (some ⟨fun _ _ => false⟩), .report 0 (.fault .badSan ⟨3, 5⟩)] 0
    (.fault .badSan ⟨3, 5⟩)
  obtain ⟨handler, number, report, h⟩ := hinvoked.2 ⟨rfl, by
    rintro report ⟨earlier, key, p, later, _, _, hcalls, -⟩
    cases earlier with
    | nil => cases hcalls
    | cons _ earlier => cases earlier <;> cases hcalls⟩
  have hfirst := haborted.2 ⟨rfl, handler, number, report, h, by
    cases (htold handler number report h).1
    rfl⟩
  exact ⟨hfit, hfirst, htwice [_] 0 _ [] rfl rfl hfirst⟩

/-! ## Two texts under one key -/

/-- A problem whose mark was seen is not passed on. -/
theorem delivered_of_mark_mem {buffer : Buffer} {p : Problem}
    (h : (⟨p.verdict, (locate r.lines buffer p).1⟩ : Mark) ∈ r.seen) :
    (r.report buffer p).2.delivered = r.delivered := by
  unfold report
  cases r.handler with
  | none => rfl
  | some handler => simp only [deliver, if_pos h]

/-- A problem whose mark was not seen is passed on to whoever listens, with the place that the line
table gives it. -/
theorem report_of_mark_notMem {handler : Handler} (buffer : Buffer) (p : Problem)
    (hsome : r.handler = some handler)
    (h : (⟨p.verdict, (locate r.lines buffer p).1⟩ : Mark) ∉ r.seen) :
    (r.report buffer p).2 =
      { r with
        calls := r.calls + 1
        seen := r.seen.insert ⟨p.verdict, (locate r.lines buffer p).1⟩
        lines := (locate r.lines buffer p).2
        delivered := r.delivered.push
          ⟨p.isCritical, p.verdict, p.message, (locate r.lines buffer p).1, p⟩ } := by
  simp only [report, hsome, deliver, if_neg h]

/-- A fault that starts in the text is located where it starts. -/
theorem locate_fault (lines : LineTable) (buffer : Buffer) (kind : Fault) (span : Span)
    (h : span.start ≤ buffer.text.size) :
    locate lines buffer (.fault kind span) = lines.locate buffer span.start := by
  rw [← Nat.min_eq_left h]
  rfl

/-- A listener hears of a bad move in the first line of a text and, after that, not of one in the
second line of another text, although nothing was passed on for that line and column before: the
other text has the key of the first. -/
theorem unheard_of_shared_key :
    LineTable.longRow.key = LineTable.splitRow.key ∧
      LineTable.longRow.text.size = LineTable.splitRow.text.size ∧
      LineTable.longRow.text.LinesFit ∧ LineTable.splitRow.text.LinesFit ∧
      ∃ r, r = ((empty.setHandler (some ⟨fun _ _ => true⟩)).report LineTable.longRow
          (.fault .badSan ⟨256, 257⟩)).2 ∧
        r.delivered.toList.map Report.occurrence = [⟨.illegalMove, 1, 257⟩] ∧
        (Problem.fault .badSan ⟨257, 258⟩).occurrence LineTable.splitRow.text =
          ⟨.illegalMove, 2, 257⟩ ∧
        (r.report LineTable.splitRow (.fault .badSan ⟨257, 258⟩)).2.delivered = r.delivered := by
  obtain ⟨hlong, hsplit⟩ := LineTable.linesFit_rows
  obtain ⟨hagain, hline, hcolumn⟩ := LineTable.locate_splitRow
  obtain ⟨hsize, hsize'⟩ := LineTable.size_rows
  -- The first report is fresh and is placed in the first line.
  have hlocate := locate_fault LineTable.empty LineTable.longRow .badSan ⟨256, 257⟩
    (by rw [hsize]; decide)
  have hsome : (empty.setHandler (some ⟨fun _ _ => true⟩)).handler = some ⟨fun _ _ => true⟩ := rfl
  have hreport := report_of_mark_notMem LineTable.longRow (.fault .badSan ⟨256, 257⟩) hsome
    Std.HashSet.not_mem_empty
  rw [show (empty.setHandler (some ⟨fun _ _ => true⟩)).lines = LineTable.empty from rfl, hlocate,
    LineTable.locate_longRow] at hreport
  refine ⟨rfl, hsize.trans hsize'.symm, hlong, hsplit, _, rfl, ?_, ?_, ?_⟩
  · rw [hreport]
    rfl
  · have hstart : min 257 LineTable.splitRow.text.size = 257 := by rw [hsize']; rfl
    simp only [Problem.occurrence, Problem.span?, hstart, hline, hcolumn]
    rfl
  · -- The table takes the second line of the other text for its first, and so the mark is known.
    refine delivered_of_mark_mem ?_
    rw [hreport, locate_fault _ _ _ _ (by rw [hsize']; decide), hagain]
    exact Std.HashSet.mem_insert_self

end Reporter

end Scorebook
