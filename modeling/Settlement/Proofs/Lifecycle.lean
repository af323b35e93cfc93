import Settlement.Check.Basic
import Settlement.Proofs.Amounts

/-!
# The life of a check

A step works on a check in place, and it may be refused after its status was looked at. What a call
can do is nevertheless one of four things (`Check.call_cases`): it is refused and leaves the check
as it was, or it authorizes a created check, or it pays or ends one that is not complete. Everything
else is read off these cases: that a completed check stays as it is (`Check.call_of_isTerminal`),
that a check is authorized at most once, and what the status, the reference and the time of
completion have to do with each other (`Check.Coherent`).
-/

namespace Settlement.Check

/-! ### Procedures -/

section Procedures

variable {α β : Type}

/-- A sequence of procedures goes on where the first one left the check, unless that failed. -/
private theorem bind_on (p : Procedure α) (q : α → Procedure β) (check : Check) :
    Procedure.on (p >>= q) check =
      match p.on check with
      | (.ok x, next) => (q x).on next
      | (.error f, next) => (.error f, next) := by
  simp only [Procedure.on, bind, ExceptT.bind, ExceptT.mk, ExceptT.run, StateT.bind, StateT.run,
    ExceptT.bindCont]
  rcases p check with ⟨_ | _, next⟩ <;> rfl

/-- A procedure that needs something which is refused is refused with it, and has done nothing. -/
private theorem ofExcept_bind_on (r : Except Fault α) (q : α → Procedure β) (check : Check) :
    Procedure.on (ofExcept r >>= q) check =
      match r with
      | .ok x => (q x).on check
      | .error f => (.error f, check) := by
  rw [bind_on]
  cases r <;> rfl

private theorem require_bind_on (a : Action) (q : Procedure β) (check : Check) :
    Procedure.on (require a >>= fun _ => q) check =
      if check.standing.status ∈ a.allowed then q.on check
      else (.error (.wrongStatus a check.standing.status), check) := by
  have hrequire : (require a).on check = if check.standing.status ∈ a.allowed then (.ok (), check)
      else (.error (.wrongStatus a check.standing.status), check) := by
    rw [require, bind_on]
    change Procedure.on (ite _ _ _) check = _
    split_ifs <;> rfl
  rw [bind_on, hrequire]
  split_ifs <;> rfl

private theorem complete_on (status : Status) (v : Value) (check : Check) :
    (complete status v).on check =
      match time? v with
      | none => (.error .missingCompletionTime, check)
      | some t => (.ok (), { check with
          standing := { check.standing with status, completedAt := some t } }) := by
  rw [complete]
  cases time? v <;> rfl

end Procedures

/-! ### Calls -/

variable {check : Check} {step : Step} {steps : List Step}

/-- The action that a step takes. -/
def Step.action : Step → Action
  | .authorize _ => .authorize
  | .pay .. => .pay
  | .fail _ => .fail
  | .cancel _ => .cancel

/-- Where a check stands after a step that was not refused. -/
inductive Leads (from_ : Standing) : Step → Standing → Prop
  | authorize (reference : PaymentReference) : from_.status = .created →
      Leads from_ (.authorize (.given reference)) ⟨.authorized, some reference, from_.completedAt⟩
  | pay (reference : PaymentReference) (v t : Value) : from_.status.isTerminal = false →
      time? v = some t → Leads from_ (.pay (.given reference) v) ⟨.paid, some reference, some t⟩
  | fail (v t : Value) : from_.status.isTerminal = false → time? v = some t →
      Leads from_ (.fail v) ⟨.failed, from_.reference, some t⟩
  | cancel (v t : Value) : from_.status.isTerminal = false → time? v = some t →
      Leads from_ (.cancel v) ⟨.canceled, from_.reference, some t⟩

/-- **Calls.** A call is refused and leaves the check as it was, or it leads on and leaves all but
its standing as it was. -/
theorem call_cases (check : Check) (step : Step) :
    (∃ f, check.call step = (.error f, check)) ∨
      ∃ standing, Leads check.standing step standing ∧
        check.call step = (.ok (), { check with standing }) := by
  have hopen : ∀ a : Action, check.standing.status ∈ a.allowed →
      check.standing.status.isTerminal = false := fun a => isTerminal_of_mem_allowed
  cases step with
  | authorize reference =>
    rw [call, Step.perform, authorize, require_bind_on, ofExcept_bind_on]
    split_ifs with hstatus
    · cases reference with
      | other v => exact .inl ⟨_, rfl⟩
      | given reference => exact .inr ⟨_, .authorize reference (List.mem_singleton.1 hstatus), rfl⟩
    · exact .inl ⟨_, rfl⟩
  | pay reference v =>
    rw [call, Step.perform, pay, require_bind_on, ofExcept_bind_on]
    split_ifs with hstatus
    · cases reference with
      | other v => exact .inl ⟨_, rfl⟩
      | given reference =>
        -- a time that is missing is found out before the reference is written
        simp only [Given.require, bind_on, complete_on]
        cases ht : time? v with
        | none => exact .inl ⟨_, rfl⟩
        | some t => exact .inr ⟨_, .pay reference v t (hopen _ hstatus) ht, rfl⟩
    · exact .inl ⟨_, rfl⟩
  | fail v =>
    rw [call, Step.perform, fail, require_bind_on, complete_on]
    split_ifs with hstatus
    · cases ht : time? v with
      | none => exact .inl ⟨_, rfl⟩
      | some t => exact .inr ⟨_, .fail v t (hopen _ hstatus) ht, rfl⟩
    · exact .inl ⟨_, rfl⟩
  | cancel v =>
    rw [call, Step.perform, cancel, require_bind_on, complete_on]
    split_ifs with hstatus
    · cases ht : time? v with
      | none => exact .inl ⟨_, rfl⟩
      | some t => exact .inr ⟨_, .cancel v t (hopen _ hstatus) ht, rfl⟩
    · exact .inl ⟨_, rfl⟩

/-- A completed check refuses each step and stays as it is. -/
theorem call_of_isTerminal (h : check.standing.status.isTerminal = true) (step : Step) :
    ∃ f, check.call step = (.error f, check) := by
  rcases call_cases check step with hrefused | ⟨standing, hleads, -⟩
  · exact hrefused
  · cases hleads with
    | authorize reference hcreated => rw [hcreated] at h; cases h
    | pay _ _ _ hopen _ | fail _ _ hopen _ | cancel _ _ hopen _ => rw [hopen] at h; cases h

/-! ### Histories -/

/-- A call in the life of a check: the step, the check before it, how it ended, and the check
after it. -/
structure Call where
  step : Step
  before : Check
  result : Except Fault Unit
  after : Check

/-- The calls of a number of steps, one after the other. -/
def history (check : Check) : List Step → List Call
  | [] => []
  | step :: rest =>
    let (result, next) := check.call step
    ⟨step, check, result, next⟩ :: next.history rest

/-- Whether a call authorized its check. -/
def Call.authorizes (c : Call) : Bool := c.result.isOk && c.step.action == .authorize

/-- Whether a call completed its check. -/
def Call.completes (c : Call) : Bool := c.result.isOk && c.step.action != .authorize

/-- The first call of a history is refused, and the others start from the same check, or it leads
on. -/
private theorem history_cons (check : Check) (step : Step) (rest : List Step) :
    (∃ f, check.history (step :: rest) = ⟨step, check, .error f, check⟩ :: check.history rest ∧
        check.run (step :: rest) = check.run rest) ∨
      ∃ standing, Leads check.standing step standing ∧
        check.history (step :: rest) = ⟨step, check, .ok (), { check with standing }⟩ ::
          { check with standing }.history rest ∧
        check.run (step :: rest) = { check with standing }.run rest := by
  rcases call_cases check step with ⟨f, hcall⟩ | ⟨standing, hleads, hcall⟩
  · exact .inl ⟨f, by rw [history, hcall], by rw [run, List.foldl_cons, hcall, run]⟩
  · exact .inr ⟨standing, hleads, by rw [history, hcall], by rw [run, List.foldl_cons, hcall, run]⟩

/-- A refused call leaves its check as it was. -/
private theorem after_eq_of_refused {c : Call} (hc : c ∈ check.history steps)
    (hrefused : c.result.isOk = false) : c.after = c.before := by
  induction steps generalizing check with
  | nil => cases hc
  | cons step rest ih =>
    rcases history_cons check step rest with ⟨f, hhistory, -⟩ | ⟨standing, -, hhistory, -⟩ <;>
      rw [hhistory] at hc <;> rcases List.mem_cons.1 hc with rfl | hc
    · rfl
    · exact ih hc
    · cases hrefused
    · exact ih hc

/-- The standing is all that a life changes. -/
private theorem run_eq (check : Check) (steps : List Step) :
    check.run steps = { check with standing := (check.run steps).standing } := by
  induction steps generalizing check with
  | nil => rfl
  | cons step rest ih =>
    rcases history_cons check step rest with ⟨f, -, hrun⟩ | ⟨standing, -, -, hrun⟩
    · rw [hrun]
      exact ih check
    · rw [hrun, ih]

/-! ### What happens once -/

/-- Nothing succeeds in the life of a completed check. -/
private theorem refused_of_isTerminal (h : check.standing.status.isTerminal = true) :
    ∀ c ∈ check.history steps, c.result.isOk = false := by
  induction steps with
  | nil => simp [history]
  | cons step rest ih =>
    obtain ⟨f, hcall⟩ := call_of_isTerminal h step
    rw [history, hcall]
    exact List.forall_mem_cons.2 ⟨rfl, ih⟩

/-- A check that is no longer created is not authorized any more. -/
private theorem not_authorizes_of_ne (h : check.standing.status ≠ .created) :
    ∀ c ∈ check.history steps, c.authorizes = false := by
  induction steps generalizing check with
  | nil => simp [history]
  | cons step rest ih =>
    rcases history_cons check step rest with ⟨f, hhistory, -⟩ | ⟨standing, hleads, hhistory, -⟩ <;>
      rw [hhistory, List.forall_mem_cons]
    · exact ⟨rfl, ih h⟩
    · cases hleads with
      | authorize reference hcreated => exact absurd hcreated h
      | pay | fail | cancel => exact ⟨rfl, ih (by simp)⟩

/-- **Order of calls.** After a call that authorized its check none does, and after one that
completed it none succeeds. -/
private theorem pairwise_history (check : Check) (steps : List Step) :
    (check.history steps).Pairwise fun c later =>
      (c.authorizes = true → later.authorizes = false) ∧
        (c.completes = true → later.result.isOk = false) := by
  induction steps generalizing check with
  | nil => exact .nil
  | cons step rest ih =>
    rcases history_cons check step rest with ⟨f, hhistory, -⟩ | ⟨standing, hleads, hhistory, -⟩ <;>
      rw [hhistory] <;> refine .cons (fun later hlater => ?_) (ih _)
    · exact ⟨nofun, nofun⟩
    · cases hleads with
      | authorize => exact ⟨fun _ => not_authorizes_of_ne (by exact nofun) later hlater, nofun⟩
      | pay | fail | cancel => exact ⟨nofun, fun _ => refused_of_isTerminal rfl later hlater⟩

/-- What does not happen again after it happened happens at most once. -/
private theorem countP_le_one {α : Type} {p : α → Bool} {l : List α}
    (h : l.Pairwise fun a b => p a = true → p b = false) : l.countP p ≤ 1 := by
  induction h with
  | nil => exact Nat.zero_le 1
  | @cons a l hfirst _ ih =>
    rw [List.countP_cons]
    split_ifs with hp
    · have hnone : l.countP p = 0 :=
        List.countP_eq_zero.2 fun b hb => Bool.eq_false_iff.1 (hfirst b hb hp)
      omega
    · exact ih

/-! ### Coherence -/

/-- **Coherence** of a standing, where it is known whether the check was authorized: a time of
completion goes with the terminal statuses, a reference with being authorized or paid. -/
structure Coherent (authorized : Prop) (standing : Standing) : Prop where
  completed : standing.completedAt.isSome = standing.status.isTerminal
  reference : match standing.status with
    | .created => standing.reference = none ∧ ¬ authorized
    | .authorized => standing.reference.isSome ∧ authorized
    | .paid => standing.reference.isSome
    | .failed | .canceled => standing.reference.isSome ↔ authorized

theorem coherent_initial : Coherent False .initial := ⟨rfl, rfl, not_false⟩

/-- A step that is not refused leads from a coherent standing to another one. -/
theorem Coherent.of_leads {authorized : Prop} {from_ standing : Standing}
    (h : Coherent authorized from_) (hleads : Leads from_ step standing) :
    Coherent (authorized ∨ step.action = .authorize) standing := by
  have href := h.reference
  cases hleads with
  | authorize reference hcreated =>
    refine ⟨?_, rfl, .inr rfl⟩
    rw [h.completed, hcreated]
    rfl
  | pay reference v t hopen ht => exact ⟨rfl, rfl⟩
  | fail v t hopen ht | cancel v t hopen ht =>
    refine ⟨rfl, ?_⟩
    simp only [Step.action, reduceCtorEq, or_false]
    cases hstatus : from_.status <;> rw [hstatus] at href hopen
    · simp [href]
    · simp [href]
    all_goals cases hopen

/-- A life keeps a check coherent. -/
private theorem Coherent.run {authorized : Prop} (h : Coherent authorized check.standing) :
    Coherent (authorized ∨ ∃ c ∈ check.history steps, c.authorizes = true)
      (check.run steps).standing := by
  induction steps generalizing authorized check with
  | nil => simpa [Check.run, history] using h
  | cons step rest ih =>
    rcases history_cons check step rest with ⟨f, hhistory, hrun⟩ |
      ⟨standing, hleads, hhistory, hrun⟩ <;> rw [hhistory, hrun]
    · have hnone : Call.authorizes ⟨step, check, .error f, check⟩ = false := rfl
      simpa [hnone] using ih h
    · have hfirst : Call.authorizes ⟨step, check, .ok (), { check with standing }⟩ = true ↔
          step.action = .authorize := beq_iff_eq
      simpa [hfirst, or_assoc] using @ih { check with standing } _ (h.of_leads hleads)

/-! ### Lives -/

/-- Checks are **built** from an amount and items, under an id of the caller or a new one, or from a
quote. -/
inductive Built : Check → Prop
  | direct {id : Value} {amount : Money} {items : List PaidItem} {createdAt sessionId : Value}
      {check : Check} : create id amount items createdAt sessionId = .ok check → Built check
  | new {amount : Money} {items : List PaidItem} {createdAt sessionId : Value} {fresh : String}
      {check : Check} : createNew amount items createdAt sessionId fresh = .ok check → Built check
  | ofQuote {quote : Quote} {createdAt sessionId id : Value} {fresh : String} {check : Check} :
      Check.ofQuote quote createdAt sessionId id fresh = .ok check → Built check

private theorem standing_of_create {id createdAt sessionId : Value} {amount : Money}
    {items : List PaidItem} (h : create id amount items createdAt sessionId = .ok check) :
    check.standing = .initial := by
  rw [create] at h
  split_ifs at h
  split at h
  · cases h
  · obtain ⟨quote, -, h⟩ := bind_eq_ok_iff.1 h
    cases h
    rfl

/-- A check that was just built is created. -/
theorem Built.standing_eq (h : Built check) : check.standing = .initial := by
  cases h with
  | direct h | new h | ofQuote h => exact standing_of_create h

/-- **The life of a check.** Whatever steps are tried on a check that was built, with whatever they
are given: its id, session, amount, items and time of creation stay. It has a time of completion
exactly in a terminal status; it has no reference while it is created, has one once it is authorized
or paid, and having failed or been canceled it has one exactly if it was authorized. It is authorized
at most once and completed at most once, and nothing succeeds after it was completed. A refused call
leaves where it stands as it was. -/
theorem run_coherent (check : Check) (h : Built check) (steps : List Step) :
    let final := check.run steps
    let history := check.history steps
    (final.id = check.id ∧ final.sessionId = check.sessionId ∧ final.amount = check.amount ∧
      final.items = check.items ∧ final.createdAt = check.createdAt) ∧
    (final.standing.completedAt.isSome ↔ final.standing.status.isTerminal) ∧
    (match final.standing.status with
      | .created => final.standing.reference = none
      | .authorized | .paid => final.standing.reference.isSome
      | .failed | .canceled => final.standing.reference.isSome ↔
          ∃ c ∈ history, c.step.action = .authorize ∧ c.result.isOk) ∧
    history.countP Call.authorizes ≤ 1 ∧ history.countP Call.completes ≤ 1 ∧
    history.Pairwise (fun c later => c.completes → later.result.isOk = false) ∧
    ∀ c ∈ history, c.result.isOk = false → c.after.standing = c.before.standing := by
  intro final history
  have hcoherent : Coherent (False ∨ ∃ c ∈ history, c.authorizes = true) final.standing :=
    Coherent.run (h.standing_eq ▸ coherent_initial)
  have hpairwise := pairwise_history check steps
  refine ⟨?_, ?_, ?_, ?_, ?_, ?_, ?_⟩
  · rw [show final = { check with standing := final.standing } from run_eq check steps]
    exact ⟨rfl, rfl, rfl, rfl, rfl⟩
  · rw [hcoherent.completed]
  · have href := hcoherent.reference
    have hauthorizes : ∀ c : Call, c.authorizes = true ↔
        c.step.action = .authorize ∧ c.result.isOk = true := fun c => by
      rw [Call.authorizes, Bool.and_eq_true, beq_iff_eq, and_comm]
    simp only [hauthorizes, false_or] at href
    split <;> rename_i hstatus <;> rw [hstatus] at href
    · exact href.1
    · exact href.1
    all_goals exact href
  · exact countP_le_one (hpairwise.imp And.left)
  · refine countP_le_one (hpairwise.imp fun hlater hc => ?_)
    rw [Call.completes, hlater.2 hc, Bool.false_and]
  · exact hpairwise.imp And.right
  · exact fun c hc hrefused => congrArg standing (after_eq_of_refused hc hrefused)

/-- A check for a tea is canceled after it was authorized, whatever else is tried in vain: it has a
reference and a time of completion. -/
theorem run_coherent_canceled :
    let price := Money.euro 150 (by decide)
    let tea : PaidItem := ⟨"tea", 1, price, price, by decide, by decide, by decide, rfl, by decide,
      by decide⟩
    let check : Check := ⟨.text "tab", .null, price, [tea], .text "noon", .initial⟩
    let steps : List Step := [.pay (.other .null) (.text "noon"), .authorize (.given ⟨"a"⟩),
      .authorize (.given ⟨"b"⟩), .cancel .null, .cancel (.text "noon"), .fail (.text "noon")]
    createNew price [tea] (.text "noon") .null "tab" = .ok check ∧
      (check.run steps).standing.status = .canceled ∧
      (check.run steps).standing.completedAt.isSome ∧ (check.run steps).standing.reference.isSome ∧
      (check.history steps).countP Call.completes = 1 := by
  intro price tea check steps
  have hcheck : createNew price [tea] (.text "noon") .null "tab" = .ok check := rfl
  have hstatus : (check.run steps).standing.status = .canceled := rfl
  obtain ⟨-, hcompleted, href, -, hcompletes, -⟩ := run_coherent check (.new hcheck) steps
  have hended : 0 < (check.history steps).countP Call.completes := by decide
  refine ⟨hcheck, hstatus, hcompleted.2 (hstatus ▸ rfl), ?_, by omega⟩
  simp only [hstatus] at href
  exact href.2 ⟨_, List.mem_cons_of_mem _ List.mem_cons_self, rfl, rfl⟩

end Settlement.Check
