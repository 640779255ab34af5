import Scriptlet.Proofs.Parsing.Joining
import Scriptlet.Proofs.Running.Basic
import Scriptlet.Proofs.Running.Simulation
import Scriptlet.Run.Session

/-!
# A session is one script

A session runs one source after another, and some of them fail. What it holds in the end is what a
single run would have left behind: the run of one source, made of the sources that did not fail
since the session was last reset, one below the other.

There are two parts to it. The first is about text. A spelling of some statements, a newline, and
a spelling of others is a spelling of all of them (`Script.Spells.append`); so the sources taken
together parse, and parse to the statements of each in turn. Only the marks are other ones, since
the positions are counted from the beginning of the whole.

The second is about runs. A session runs under limits and may be interrupted, and every part
starts its steps anew, while the one run counts all steps and has no limit on them. But what a run
*succeeds* in doing depends on neither: a run that ends with a world ends with the same world
without a quota, without an interruption, from any meter, and at any marks. This is a simulation
(`success`), and it is carried along the history of a session, one operation at a time.
-/

namespace Scriptlet

/-! ### What succeeds under limits succeeds without -/

/-- **Success does not depend on limits or marks**: an evaluation that has a result also has it
without limits, and from any meter. -/
def success (l : Settings) : Simulation (fun _ _ => True) l l.unlimited where
  Rel R x y := ∀ {m a n}, x m = .done a n → ∀ m', ∃ b n', y m' = .done b n' ∧ R a b
  depth := l.depth_unlimited
  isolated := l.isolated_unlimited
  pure h := by
    intro m a' n hx m'
    cases hx
    exact ⟨_, m', rfl, h⟩
  bind {α β R Q x y f g} hxy hfg := by
    intro m b n hx m'
    obtain ⟨a, n₁, hxm, hf⟩ := Eval.bind_eq_done_iff.1 hx
    obtain ⟨a', n₁', hym, ha⟩ := hxy hxm m'
    obtain ⟨b', n', hg, hb⟩ := hfg a a' ha hf n₁'
    exact ⟨b', n', (Eval.bind_of_done hym g).trans hg, hb⟩
  noteCall record := by
    intro m a n hx m'
    exact ⟨(), _, rfl, rfl⟩
  step hctx := by
    intro m a n hx m'
    have hfree := Context.free_of_unlimited hctx.right_limits hctx.right_cancelAt
    exact ⟨(), _, hfree.step_eq m', rfl⟩
  fail fault _ _ := by
    intro m a n hx
    cases hx

/-- Loops that are done take the same rounds without limits. -/
theorem loopers_success (l : Settings) : (success l).Loopers loop loop := by
  intro ctx ctx' hctx _ condition body vars m vars' n hloop
  have hround := Simulation.round (S := success l) hctx condition body
  suffices h : ∀ {o}, loop? ctx (condition.map MarkPair.left)
      (body.map (Clause.map MarkPair.left)) vars m = some o → ∀ {vars' n}, o = .done vars' n →
      ∀ m', ∃ n', loop? ctx' (condition.map MarkPair.right)
        (body.map (Clause.map MarkPair.right)) vars m' = some (.done vars' n') by
    intro m'
    obtain ⟨n', h'⟩ := h (loop?_of_loop_eq_done hloop) rfl m'
    exact ⟨vars', n', loop_eq_of_loop? h', rfl⟩
  intro o ho
  -- the induction is over the rounds on the left; each has its counterpart on the right
  refine loop?_induction (Q := fun vars _ o => ∀ {vars' n}, o = .done vars' n → ∀ m', ∃ n',
    loop? ctx' (condition.map MarkPair.right) (body.map (Clause.map MarkPair.right)) vars m' =
      some (.done vars' n')) ?_ ?_ ?_ ho
  · intro vars m s n _ vars' n' h
    cases h
  · intro vars m n hdone vars' n' h m'
    cases h
    obtain ⟨b, n'', hr, rfl⟩ := hround vars hdone m'
    exact ⟨n'', loop?_of_none hr⟩
  · intro vars m vars₁ n o hdone ih vars' n' h m'
    obtain ⟨b, n₁, hr, rfl⟩ := hround vars hdone m'
    obtain ⟨n'', hl⟩ := ih h n₁
    exact ⟨n'', (loop?_of_some hr).trans hl⟩

/-- **What a run of statements succeeds in doing it also does without limits**, from a world that
matches, with any marks on the statements, and from any meter. -/
theorem runStatements_unlimited {l : Settings} {w w' v : World} {ss ss' : List (Stmt Position)}
    {m n : Meter} (hw : World.Matches (fun _ _ => True) w w')
    (hss : ss.map Stmt.bare = ss'.map Stmt.bare) (h : runStatements loop l w ss m = .done v n)
    (m' : Meter) : ∃ v' n', runStatements loop l.unlimited w' ss' m' = .done v' n' ∧
      World.Matches (fun _ _ => True) v v' := by
  have hmatch : List.Forall₂ (Stmt.Matches fun _ _ => True) ss ss' := by
    have heq : List.Forall₂ Eq (ss.map Stmt.bare) (ss'.map Stmt.bare) := by
      rw [List.forall₂_eq_eq_eq, hss]
    have hbare : List.Forall₂ (fun s s' => s.bare = s'.bare) ss ss' :=
      List.forall₂_map_left_iff.1 (List.forall₂_map_right_iff.1 heq)
    exact hbare.imp fun _ _ h => Stmt.matches_of_bare_eq (fun _ _ => trivial) h
  exact Simulation.runStatements (loopers_success l) hw hmatch h m'

/-! ### The history of a session -/

/-- **What running a source in a session can do**: the source parses and runs to its end, and the
session holds the world after it; or there is an error, and the session is as it was. -/
theorem Session.exec_cases (s : Session) (cancelAt : Option Nat) (source : Bytes) :
    (∃ script w m, parse source = .ok script ∧
      runStatements loop ⟨s.limits, cancelAt⟩ s.world script.statements ⟨0, []⟩ = .done w m ∧
      s.exec cancelAt source = ({ s with world := w }, .ok w.bindings)) ∨
    ∃ e, s.exec cancelAt source = (s, .error e) := by
  rcases hparse : parse source with e | script
  · exact Or.inr ⟨.invalid e, by simp only [exec, runSource, hparse]⟩
  · rcases hrun : runStatements loop ⟨s.limits, cancelAt⟩ s.world script.statements ⟨0, []⟩ with
      ⟨w, m⟩ | ⟨stop, m⟩
    · refine Or.inl ⟨script, w, m, rfl, hrun, ?_⟩
      simp only [exec, runSource, hparse, runScript, hrun]
    · exact Or.inr ⟨.ofStop source stop, by simp only [exec, runSource, hparse, runScript, hrun]⟩

/-- What can be done with a session. -/
inductive Session.Op where
  /-- Runs a source, which is interrupted at some step or not. -/
  | exec (cancelAt : Option Nat) (source : Bytes)
  /-- Forgets everything. -/
  | reset

/-- A session, with the sources that it has run without failure since it was last reset. -/
structure Transcript where
  /-- The session. -/
  session : Session
  /-- The sources, in the order in which they were run. -/
  sources : List Bytes

namespace Transcript

/-- One more operation. -/
def apply (t : Transcript) : Session.Op → Transcript
  | .exec cancelAt source =>
    match t.session.exec cancelAt source with
    | (s, .ok _) => ⟨s, t.sources ++ [source]⟩
    | (s, .error _) => ⟨s, t.sources⟩
  | .reset => ⟨t.session.reset, []⟩

/-- **The transcript of a new session** after some operations. -/
def after (limits : Limits) (ops : List Session.Op) : Transcript :=
  ops.foldl apply ⟨.new limits, []⟩

/-- The sources of a transcript, one below the other. -/
def text (t : Transcript) : Bytes :=
  Bytes.join (Bytes.ofString "\n") t.sources

/-- **What a session holds is explained by its sources**: they spell some statements, and running
these statements without limits gives the world of the session, whatever the marks on
them. -/
structure Explained (limits : Limits) (t : Transcript) (P : List (Stmt Unit)) : Prop where
  limits_eq : t.session.limits = limits
  nil_iff : t.sources = [] ↔ P = []
  spells : P ≠ [] → Script.WellFormed P ∧ Script.Spells P t.text
  run : ∀ ss : List (Stmt Position), ss.map Stmt.bare = P → ∀ m, ∃ w n,
    runStatements loop (Settings.unlimited ⟨limits, none⟩) .empty ss m = .done w n ∧
      World.Matches (fun _ _ => True) t.session.world w

variable {limits : Limits} {t : Transcript} {P : List (Stmt Unit)}

theorem explained_new (limits : Limits) : Explained limits ⟨.new limits, []⟩ [] where
  limits_eq := rfl
  nil_iff := by simp
  spells h := absurd rfl h
  run ss hss m := by
    obtain rfl := List.map_eq_nil_iff.1 hss
    exact ⟨.empty, m, rfl, World.matches_empty _⟩

/-- A source that runs to its end continues the explanation. -/
theorem Explained.append (h : Explained limits t P) {source : Bytes} {script : Script}
    {cancelAt : Option Nat} {w : World} {n : Meter} (hparse : parse source = .ok script)
    (hrun : runStatements loop ⟨t.session.limits, cancelAt⟩ t.session.world script.statements
      ⟨0, []⟩ = .done w n) :
    Explained limits ⟨{ t.session with world := w }, t.sources ++ [source]⟩
      (P ++ script.statements.map Stmt.bare) where
  limits_eq := h.limits_eq
  nil_iff := by
    have hne := (spells_of_parse hparse).1.1
    simp [hne]
  spells _ := by
    obtain ⟨hwf, hspells⟩ := spells_of_parse hparse
    -- a line feed is put between two sources, and none before the first
    by_cases hP : P = []
    · have hsources := h.nil_iff.2 hP
      rw [hP, List.nil_append, text, hsources]
      exact ⟨hwf, hspells⟩
    · have hsources := mt h.nil_iff.1 hP
      obtain ⟨hPwf, hPspells⟩ := h.spells hP
      rw [text, Bytes.join_append _ hsources (List.cons_ne_nil source [])]
      exact ⟨hPwf.append hwf, hPspells.append hP hwf.1 hspells⟩
  run ss hss m := by
    -- the first statements lead to a world like that of the session, and the others go on there
    obtain ⟨ss₁, ss₂, rfl, hss₁, hss₂⟩ := List.map_eq_append_iff.1 hss
    obtain ⟨v, n₁, hv, hmatch⟩ := h.run ss₁ hss₁ m
    obtain ⟨v', n', hv', hmatch'⟩ := runStatements_unlimited hmatch hss₂.symm hrun n₁
    rw [h.limits_eq] at hv'
    refine ⟨v', n', ?_, hmatch'⟩
    rw [runStatements_append]
    exact (Eval.bind_of_done hv _).trans hv'

/-- **Whatever is done to a session, it stays explained.** -/
theorem Explained.apply (h : Explained limits t P) (op : Session.Op) :
    ∃ Q, Explained limits (t.apply op) Q := by
  cases op with
  | reset =>
    refine ⟨[], ?_⟩
    rw [Transcript.apply, Session.reset, h.limits_eq]
    exact explained_new limits
  | exec cancelAt source =>
    rcases t.session.exec_cases cancelAt source with
      ⟨script, w, n, hparse, hrun, hexec⟩ | ⟨e, hexec⟩
    · refine ⟨P ++ script.statements.map Stmt.bare, ?_⟩
      rw [Transcript.apply, hexec]
      exact h.append hparse hrun
    · refine ⟨P, ?_⟩
      rw [Transcript.apply, hexec]
      exact h

theorem exists_explained (limits : Limits) (ops : List Session.Op) :
    ∃ P, Explained limits (after limits ops) P := by
  suffices h : ∀ {t P}, Explained limits t P →
      ∃ Q, Explained limits (ops.foldl Transcript.apply t) Q from h (explained_new limits)
  induction ops with
  | nil => exact fun h => ⟨_, h⟩
  | cons op ops ih =>
    intro t P h
    obtain ⟨Q, hQ⟩ := h.apply op
    exact ih hQ

end Transcript

/-- **A session is one script.** After any operations on a new session, its variables and functions
are those that one run leaves behind, without a quota and otherwise under the same limits, of the
sources that did not fail since the last reset, joined by newlines; they do parse. Without such
sources there are no variables and no functions. A source that fails leaves both as they were. -/
theorem session_eq_joined_run (limits : Limits) (ops : List Session.Op) :
    let t := Transcript.after limits ops
    (t.sources = [] → t.session.bindings = .empty ∧ t.session.functions = []) ∧
    (t.sources ≠ [] → ∃ script w,
      parse (Bytes.join (Bytes.ofString "\n") t.sources) = .ok script ∧
      (runScript ⟨{ limits with quota := none }, none⟩ .empty script).result = .ok w ∧
      t.session.bindings = w.bindings ∧ t.session.functions = w.functions.names) ∧
    ∀ cancelAt source e, (t.session.exec cancelAt source).2 = .error e →
      (t.session.exec cancelAt source).1 = t.session := by
  intro t
  obtain ⟨P, hP⟩ : ∃ P, Transcript.Explained limits t P := Transcript.exists_explained limits ops
  refine ⟨fun hnil => ?_, fun hne => ?_, fun cancelAt source e herror => ?_⟩
  · obtain ⟨w, n, hw, hmatch⟩ := hP.run [] (hP.nil_iff.1 hnil).symm ⟨0, []⟩
    cases hw
    exact ⟨hmatch.bindings, hmatch.functions.names_eq⟩
  -- the joined source spells what was run, so it parses to the same with other marks
  · obtain ⟨hwf, hspells⟩ := hP.spells (mt hP.nil_iff.2 hne)
    obtain ⟨script, hparse, hbare⟩ := exists_parse_of_spells hwf hspells
    obtain ⟨w, n, hw, hmatch⟩ := hP.run script.statements hbare ⟨0, []⟩
    refine ⟨script, w, hparse, ?_, hmatch.bindings, hmatch.functions.names_eq⟩
    have hrun : runStatements loop ⟨{ limits with quota := none }, none⟩ .empty
        script.statements ⟨0, []⟩ = .done w n := hw
    rw [runScript, hrun]
  · rcases t.session.exec_cases cancelAt source with ⟨_, _, _, _, _, hexec⟩ | ⟨_, hexec⟩
    · rw [hexec] at herror
      cases herror
    · rw [hexec]

end Scriptlet
