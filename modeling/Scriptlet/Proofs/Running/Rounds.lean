import Scriptlet.Proofs.Running.Basic

/-!
# Counting rounds

A loop that goes on for good has no outcome, but it does take steps and make calls, and there are
things to say about them. So loops are also run with the number of their rounds fixed beforehand:
`loopUpTo` cuts a loop off when the rounds are used up, and says that it is unfinished. It is a
recursion on the number of rounds, and it makes sense whether or not the loop ends.

A run that cuts its loops off **approaches** the run that does not (`Approaches`). If it is not
cut off anywhere, it is the very same run; and if the run ends at all, then so many rounds are
enough for it, and so are all larger numbers.
-/

namespace Scriptlet

/-- **A loop that is cut off** after a number of rounds. -/
def loopUpTo : (rounds : Nat) → Looper
  | 0, _, _, _, _ => fun m => .stopped .unfinished m
  | rounds + 1, ctx, condition, body, vars => do
    match ← round ctx condition body vars with
    | none => pure vars
    | some vars => loopUpTo rounds ctx condition body vars

/-! ### Unfolding a loop that is cut off -/

section Unfold

variable {ctx : Context} {condition : Expr Position} {body : List (Clause Position)}
  {vars vars' : Bindings} {m n : Meter} {s : Stop}

theorem loopUpTo_of_stopped (h : round ctx condition body vars m = .stopped s n) (rounds : Nat) :
    loopUpTo (rounds + 1) ctx condition body vars m = .stopped s n :=
  Eval.bind_of_stopped h _

theorem loopUpTo_of_none (h : round ctx condition body vars m = .done none n) (rounds : Nat) :
    loopUpTo (rounds + 1) ctx condition body vars m = .done vars n :=
  Eval.bind_of_done h _

theorem loopUpTo_of_some (h : round ctx condition body vars m = .done (some vars') n)
    (rounds : Nat) :
    loopUpTo (rounds + 1) ctx condition body vars m =
      loopUpTo rounds ctx condition body vars' n :=
  Eval.bind_of_done h _

end Unfold

/-! ### Approaching a run -/

/-- **Evaluations that are cut off later and later approach one that is not**: each is cut off or is
the same, and those that come late enough are the same, unless the evaluation never ends. -/
structure Approaches {α : Type} (xs : Nat → Eval α) (x : Eval α) : Prop where
  cut_or_eq : ∀ rounds m, (∃ n, xs rounds m = .stopped .unfinished n) ∨ xs rounds m = x m
  eventually_eq : ∀ m, (∃ n, x m = .stopped .unfinished n) ∨
    ∃ enough, ∀ rounds, enough ≤ rounds → xs rounds m = x m

namespace Approaches

variable {α β : Type}

theorem const (x : Eval α) : Approaches (fun _ => x) x :=
  ⟨fun _ _ => Or.inr rfl, fun _ => Or.inr ⟨0, fun _ _ => rfl⟩⟩

/-- One evaluation after another is approached when both are. -/
protected theorem bind {xs : Nat → Eval α} {x : Eval α} {fs : Nat → α → Eval β} {f : α → Eval β}
    (hx : Approaches xs x) (hf : ∀ a, Approaches (fun rounds => fs rounds a) (f a)) :
    Approaches (fun rounds => xs rounds >>= fs rounds) (x >>= f) where
  cut_or_eq rounds m := by
    rcases hx.cut_or_eq rounds m with ⟨n, hn⟩ | heq
    · exact Or.inl ⟨n, Eval.bind_of_stopped hn _⟩
    · rcases hm : x m with ⟨a, n⟩ | ⟨s, n⟩
      · rw [Eval.bind_of_done (heq.trans hm), Eval.bind_of_done hm]
        exact (hf a).cut_or_eq rounds n
      · rw [Eval.bind_of_stopped (heq.trans hm), Eval.bind_of_stopped hm]
        exact Or.inr rfl
  eventually_eq m := by
    rcases hx.eventually_eq m with ⟨n, hn⟩ | ⟨enough, henough⟩
    · exact Or.inl ⟨n, Eval.bind_of_stopped hn _⟩
    · rcases hm : x m with ⟨a, n⟩ | ⟨s, n⟩
      · rw [Eval.bind_of_done hm]
        refine ((hf a).eventually_eq n).imp_right fun ⟨enough', henough'⟩ => ?_
        -- enough rounds for the one and for the other
        refine ⟨max enough enough', fun rounds hrounds => ?_⟩
        have heq := henough rounds (Nat.le_trans (Nat.le_max_left _ _) hrounds)
        rw [Eval.bind_of_done (heq.trans hm)]
        exact henough' rounds (Nat.le_trans (Nat.le_max_right _ _) hrounds)
      · refine Or.inr ⟨enough, fun rounds hrounds => ?_⟩
        rw [Eval.bind_of_stopped ((henough rounds hrounds).trans hm), Eval.bind_of_stopped hm]

end Approaches

section Loop

variable (ctx : Context) (condition : Expr Position) (body : List (Clause Position))

/-- A loop that is cut off after some rounds has not ended, or has the outcome of the loop. -/
theorem loopUpTo_cut_or_loop? (rounds : Nat) (vars : Bindings) (m : Meter) :
    (∃ n, loopUpTo rounds ctx condition body vars m = .stopped .unfinished n) ∨
      loop? ctx condition body vars m = some (loopUpTo rounds ctx condition body vars m) := by
  induction rounds generalizing vars m with
  | zero => exact Or.inl ⟨m, rfl⟩
  | succ rounds ih =>
    rcases hround : round ctx condition body vars m with ⟨_ | vars', n⟩ | ⟨s, n⟩
    · rw [loopUpTo_of_none hround, loop?_of_none hround]
      exact Or.inr rfl
    · rw [loopUpTo_of_some hround, loop?_of_some hround]
      exact ih vars' n
    · rw [loopUpTo_of_stopped hround, loop?_of_stopped hround]
      exact Or.inr rfl

variable {ctx condition body}

/-- A loop with an outcome has it after enough rounds. -/
theorem exists_loopUpTo_eq {vars : Bindings} {m : Meter} {o : Outcome Bindings}
    (h : loop? ctx condition body vars m = some o) :
    ∃ enough, ∀ rounds, enough ≤ rounds → loopUpTo rounds ctx condition body vars m = o := by
  have hstep : ∀ {enough : Nat} {P : Nat → Prop}, (∀ rounds, enough ≤ rounds → P (rounds + 1)) →
      ∀ rounds, enough + 1 ≤ rounds → P rounds := by
    intro enough P hP rounds hrounds
    obtain ⟨rounds, rfl⟩ := Nat.exists_eq_add_of_le' hrounds
    exact hP (rounds + enough) (Nat.le_add_left enough rounds)
  refine loop?_induction (Q := fun vars m o => ∃ enough, ∀ rounds, enough ≤ rounds →
    loopUpTo rounds ctx condition body vars m = o) ?_ ?_ ?_ h
  · intro vars m s n hround
    exact ⟨1, hstep fun rounds (_ : 0 ≤ rounds) => loopUpTo_of_stopped hround rounds⟩
  · intro vars m n hround
    exact ⟨1, hstep fun rounds (_ : 0 ≤ rounds) => loopUpTo_of_none hround rounds⟩
  · intro vars m vars' n o hround ⟨enough, henough⟩
    exact ⟨enough + 1, hstep fun rounds hrounds =>
      (loopUpTo_of_some hround rounds).trans (henough rounds hrounds)⟩

/-- **A loop is approached by its rounds.** -/
theorem approaches_loop (vars : Bindings) :
    Approaches (fun rounds => loopUpTo rounds ctx condition body vars)
      (loop ctx condition body vars) where
  cut_or_eq rounds m := by
    refine (loopUpTo_cut_or_loop? ctx condition body rounds vars m).imp_right fun h => ?_
    exact (loop_eq_of_loop? h).symm
  eventually_eq m := by
    rcases hl : loop? ctx condition body vars m with _ | o
    · exact Or.inl ⟨m, by rw [loop, hl, Option.getD_none]⟩
    · rw [loop_eq_of_loop? hl]
      exact Or.inr (exists_loopUpTo_eq hl)

end Loop

theorem approaches_runStatement (settings : Settings) (w : World) (s : Stmt Position) :
    Approaches (fun rounds => runStatement (loopUpTo rounds) settings w s)
      (runStatement loop settings w s) := by
  cases s with
  | clause c => exact .const _
  | func name f => exact .const _
  | cond mark condition body => exact .const _
  | loop mark condition body =>
    refine (Approaches.const (settings.context w).step).bind fun _ => ?_
    exact (approaches_loop w.bindings).bind fun vars => .const _

/-- **A run that cuts its loops off approaches the run that does not.** -/
theorem approaches_runStatements (settings : Settings) (w : World) (ss : List (Stmt Position)) :
    Approaches (fun rounds => runStatements (loopUpTo rounds) settings w ss)
      (runStatements loop settings w ss) := by
  induction ss generalizing w with
  | nil => exact .const _
  | cons s ss ih => exact (approaches_runStatement settings w s).bind ih

end Scriptlet
