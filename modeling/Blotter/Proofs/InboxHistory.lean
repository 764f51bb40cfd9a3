import Blotter.Proofs.Loading

/-!
# The history of an inbox

An inbox is filled in place: what it held is dropped, each row adds a trade or a reason, and one
bad row drops the trades in the end. That comes to what the table gives by itself, so an inbox
keeps nothing of its past but what the last table gave and nobody has taken yet.
-/

set_option autoImplicit false

namespace Blotter

namespace TradeTable

theorem ne_nil_of_read_eq_refused {text : List Char} {issues : List Issue}
    (h : read text = .refused issues) : issues ≠ [] := by
  unfold read at h
  split at h
  · cases h
  · simp only at h
    split at h
    · cases h
    · split at h
      · cases h
      · next some =>
        cases h
        exact some

end TradeTable

namespace TradeInbox

open Text TradeTable

structure Intake where
  box : TradeInbox
  issues : List Issue

def issueAt (entry : (Row × Nat) × Nat) : Option Issue :=
  match entry.1.1.trade with
  | .ok _ => none
  | .error bad => some (issueOf entry.2 entry.1.1 entry.1.2 bad)

def Intake.add (w : Intake) (entry : (Row × Nat) × Nat) : Intake :=
  match entry.1.1.trade with
  | .ok t => { w with box := { w.box with trades := w.box.trades ++ [t] } }
  | .error bad =>
    let issue := issueOf entry.2 entry.1.1 entry.1.2 bad
    { box := { w.box with errors := w.box.errors ++ [issue.reason] }
      issues := w.issues ++ [issue] }

/-- One bad row drops the trades of the others. -/
def Intake.close (w : Intake) : TradeInbox × Run Float Bool :=
  match w.issues with
  | [] => (w.box, do Run.announce (.loaded w.box.trades.length); return true)
  | issues =>
    ({ w.box with trades := [] }, do
      Run.announce (.rejectedRows issues.length)
      Run.fail (.invalidTrades issues))

def refill (box : TradeInbox) (text : List Char) : TradeInbox × Run Float Bool :=
  let emptied : TradeInbox := { box with trades := [], errors := [] }
  match records '\n' text with
  | [] => (emptied, do Run.announce .emptyInput; return false)
  | header :: lines =>
    match requiredColumns.find? (!(columnsOf header).contains ·) with
    | some name => (emptied, do Run.announce (.missingColumn name); return false)
    | none => ((rowsOf (columnsOf header) lines).zipIdx.foldl Intake.add ⟨emptied, []⟩).close

theorem Intake.foldl_add (entries : List ((Row × Nat) × Nat)) (w : Intake) :
    entries.foldl add w = {
      box := {
        trades := w.box.trades ++ entries.filterMap (·.1.1.trade.toOption)
        errors := w.box.errors ++ (entries.filterMap issueAt).map (·.reason) }
      issues := w.issues ++ entries.filterMap issueAt } := by
  induction entries generalizing w with
  | nil => simp
  | cons entry entries ih =>
    rw [List.foldl_cons, ih]
    cases h : entry.1.1.trade with
    | ok t => simp [add, issueAt, h, Except.toOption]
    | error bad => simp [add, issueAt, h, Except.toOption]

theorem Intake.foldl_rows (rows : List (Row × Nat)) :
    rows.zipIdx.foldl Intake.add ⟨{}, []⟩ =
      ⟨⟨tradesOf rows, (issuesOf rows).map (·.reason)⟩, issuesOf rows⟩ := by
  have trades : rows.zipIdx.filterMap (·.1.1.trade.toOption) = tradesOf rows := by
    show rows.zipIdx.filterMap ((·.1.trade.toOption) ∘ Prod.fst) = _
    rw [← List.filterMap_map, List.zipIdx_map_fst]
    rfl
  have issues : rows.zipIdx.filterMap issueAt = issuesOf rows := rfl
  rw [foldl_add, trades, issues]
  simp

/-- What an inbox held has no part in what a table gives. -/
theorem refill_eq_load (box : TradeInbox) (text : List Char) : box.refill text = load text := by
  unfold refill load TradeTable.read
  cases records '\n' text with
  | nil => rfl
  | cons header lines =>
    simp only
    cases requiredColumns.find? (!(columnsOf header).contains ·) with
    | some name => rfl
    | none =>
      rw [Intake.foldl_rows]
      cases issuesOf (rowsOf (columnsOf header) lines) with
      | nil => rfl
      | cons issue issues => rfl

inductive Step where
  | load (text : List Char)
  | loadMissing (path : String)
  | take

inductive Answer where
  | outcome (run : Run Float Bool)
  | handed (trades : List (Trade Float))

def step (box : TradeInbox) : Step → TradeInbox × Answer
  | .load text => let (box, run) := box.refill text; (box, .outcome run)
  | .loadMissing path => let (box, run) := box.loadMissing path; (box, .outcome run)
  | .take => let (box, trades) := box.take; (box, .handed trades)

def replay (history : List Step) : TradeInbox × List Answer :=
  history.foldl (fun (box, answers) s => ((box.step s).1, answers ++ [(box.step s).2])) ({}, [])

theorem replay_snoc (history : List Step) (s : Step) :
    replay (history ++ [s]) = (((replay history).1.step s).1,
      (replay history).2 ++ [((replay history).1.step s).2]) := by
  unfold replay
  rw [List.foldl_append]
  rfl

theorem step_load (box : TradeInbox) (text : List Char) :
    box.step (.load text) = ((load text).1, .outcome (load text).2) := by
  show ((box.refill text).1, Answer.outcome (box.refill text).2) = _
  rw [refill_eq_load]

/-- How a load ends: with trades, with nothing, or with the reasons of a refusal. -/
inductive Settled : TradeInbox × Run Float Bool → Prop
  | accepted {box : TradeInbox} {run : Run Float Bool} (result : run.result = .ok true)
      (errors : box.errors = []) : Settled (box, run)
  | unusable {run : Run Float Bool} (result : run.result = .ok false) : Settled ({}, run)
  | refused {run : Run Float Bool} {issues : List Issue} (some : issues ≠ [])
      (result : run.result = .error (.invalidTrades issues)) :
      Settled ({ trades := [], errors := issues.map (·.reason) }, run)

theorem load_settled (text : List Char) : Settled (load text) := by
  unfold load
  cases h : TradeTable.read text with
  | empty => exact .unusable rfl
  | lacksColumn name => exact .unusable rfl
  | refused issues => exact .refused (ne_nil_of_read_eq_refused h) rfl
  | trades ts => exact .accepted rfl rfl

def Refused (run : Run Float Bool) : Prop := ∃ issues, run.result = .error (.invalidTrades issues)

theorem Settled.exclusive {loaded : TradeInbox × Run Float Bool} (h : Settled loaded) :
    loaded.1.trades = [] ∨ loaded.1.errors = [] := by
  cases h with
  | accepted result errors => exact Or.inr errors
  | unusable result => exact Or.inl rfl
  | refused some result => exact Or.inl rfl

theorem Settled.errors_ne_nil_iff {loaded : TradeInbox × Run Float Bool} (h : Settled loaded) :
    loaded.1.errors ≠ [] ↔ Refused loaded.2 := by
  cases h with
  | accepted result errors => simp [Refused, result, errors]
  | unusable result => simp [Refused, result]
  | refused some result => simp [Refused, result, some]

def LastRefused (history : List Step) : Prop :=
  ∃ before text since run, history = before ++ .load text :: since ∧
    (∀ other, .load other ∉ since) ∧
    ((replay before).1.step (.load text)).2 = .outcome run ∧ Refused run

theorem snoc_eq_append_cons {β : Type} {xs before since : List β} {last x : β} :
    xs ++ [last] = before ++ x :: since ↔
      (since = [] ∧ xs = before ∧ last = x) ∨
        ∃ since', since = since' ++ [last] ∧ xs = before ++ x :: since' := by
  rcases List.eq_nil_or_concat since with rfl | ⟨since', y, rfl⟩
  · simp
  · rw [List.concat_eq_append, ← List.cons_append, ← List.append_assoc, List.append_singleton_inj]
    constructor
    · rintro ⟨rfl, rfl⟩
      exact Or.inr ⟨since', rfl, rfl⟩
    · rintro (⟨none, -⟩ | ⟨since'', same, rest⟩)
      · exact absurd none (List.append_ne_nil_of_right_ne_nil _ (List.cons_ne_nil _ _))
      · obtain ⟨rfl, rfl⟩ := List.append_singleton_inj.1 same
        exact ⟨rest, rfl⟩

theorem lastRefused_load (history : List Step) (text : List Char) :
    LastRefused (history ++ [.load text]) ↔ Refused (load text).2 := by
  constructor
  · rintro ⟨before, text', since, run, split, none, answer, refused⟩
    rcases snoc_eq_append_cons.1 split with ⟨-, -, same⟩ | ⟨since', rfl, -⟩
    · cases same
      rw [step_load] at answer
      cases answer
      exact refused
    · exact absurd (List.mem_append_right _ (List.mem_singleton_self _)) (none text)
  · intro refused
    refine ⟨history, text, [], (load text).2, rfl, fun _ => List.not_mem_nil, ?_, refused⟩
    rw [step_load]

theorem lastRefused_other (history : List Step) {s : Step} (other : ∀ text, s ≠ .load text) :
    LastRefused (history ++ [s]) ↔ LastRefused history := by
  constructor
  · rintro ⟨before, text, since, run, split, none, answer⟩
    rcases snoc_eq_append_cons.1 split with ⟨-, -, same⟩ | ⟨since', rfl, rest⟩
    · exact absurd same (other text)
    · exact ⟨before, text, since', run, rest,
        fun text' mem => none text' (List.mem_append_left _ mem), answer⟩
  · rintro ⟨before, text, since, run, rfl, none, answer⟩
    refine ⟨before, text, since ++ [s], run, by simp, ?_, answer⟩
    intro text' mem
    rcases List.mem_append.1 mem with earlier | last
    · exact none text' earlier
    · exact other text' (List.mem_singleton.1 last).symm

theorem exclusive_step {box : TradeInbox} (h : box.trades = [] ∨ box.errors = []) (s : Step) :
    (box.step s).1.trades = [] ∨ (box.step s).1.errors = [] := by
  cases s with
  | load text =>
    rw [step_load]
    exact (load_settled text).exclusive
  | loadMissing path => exact h
  | take => exact Or.inl rfl

theorem exclusive_replay (history : List Step) :
    (replay history).1.trades = [] ∨ (replay history).1.errors = [] := by
  induction history using List.reverseRecOn with
  | nil => exact Or.inl rfl
  | append_singleton history s ih =>
    rw [replay_snoc]
    exact exclusive_step ih s

theorem errors_replay (history : List Step) :
    (replay history).1.errors ≠ [] ↔ LastRefused history := by
  induction history using List.reverseRecOn with
  | nil =>
    refine iff_of_false (not_not.2 rfl) ?_
    rintro ⟨before, text, since, run, split, -⟩
    exact List.append_ne_nil_of_right_ne_nil _ (List.cons_ne_nil _ _) split.symm
  | append_singleton history s ih =>
    rw [replay_snoc]
    cases s with
    | load text =>
      rw [lastRefused_load, step_load]
      exact (load_settled text).errors_ne_nil_iff
    | loadMissing path => exact ih.trans (lastRefused_other history fun _ => Step.noConfusion).symm
    | take => exact ih.trans (lastRefused_other history fun _ => Step.noConfusion).symm

def Step.brings : Step → List (Trade Float)
  | .load text => (TradeInbox.load text).1.trades
  | _ => []

def Answer.hands : Answer → List (Trade Float)
  | .handed trades => trades
  | _ => []

def loaded (history : List Step) : List (Trade Float) := history.flatMap Step.brings

def handed (history : List Step) : List (Trade Float) := (replay history).2.flatMap Answer.hands

theorem loaded_snoc (history : List Step) (s : Step) :
    loaded (history ++ [s]) = loaded history ++ s.brings := by
  simp [loaded]

theorem handed_snoc (history : List Step) (s : Step) :
    handed (history ++ [s]) = handed history ++ ((replay history).1.step s).2.hands := by
  simp [handed, replay_snoc]

theorem hands_step (box : TradeInbox) (s : Step) :
    ((box.step s).2.hands ++ (box.step s).1.trades).Sublist (box.trades ++ s.brings) := by
  cases s with
  | load text =>
    rw [step_load]
    exact List.sublist_append_right _ _
  | loadMissing path => exact List.sublist_append_left _ _
  | take => exact List.Sublist.refl _

theorem handed_replay (history : List Step) :
    (handed history ++ (replay history).1.trades).Sublist (loaded history) := by
  induction history using List.reverseRecOn with
  | nil => exact List.Sublist.refl _
  | append_singleton history s ih =>
    rw [handed_snoc, loaded_snoc, replay_snoc, List.append_assoc]
    refine ((List.Sublist.refl _).append (hands_step _ s)).trans ?_
    rw [← List.append_assoc]
    exact ih.append (List.Sublist.refl _)

structure Orderly (history : List Step) : Prop where
  fresh : ∀ text, (replay history).1.step (.load text) = ((load text).1, .outcome (load text).2)
  settled : ∀ text, Settled (load text)
  exclusive : (replay history).1.trades = [] ∨ (replay history).1.errors = []
  refused : (replay history).1.errors ≠ [] ↔ LastRefused history
  missing : ∀ path, ∃ run, run.result = .ok false ∧
    (replay history).1.step (.loadMissing path) = ((replay history).1, .outcome run)
  take : (replay history).1.step .take =
    ({ trades := [], errors := (replay history).1.errors }, .handed (replay history).1.trades)
  once : (handed history ++ (replay history).1.trades).Sublist (loaded history)

/-- After any history a load depends on its table alone, trades and reasons are never held
together, there are reasons exactly when the last table was refused, and no trade is handed out
twice. -/
theorem orderly_replay (history : List Step) : Orderly history where
  fresh := step_load _
  settled := load_settled
  exclusive := exclusive_replay history
  refused := errors_replay history
  missing _ := ⟨_, rfl, rfl⟩
  take := rfl
  once := handed_replay history

end TradeInbox

end Blotter
