import Morphology.Proofs.Edit.Composite
import Morphology.Proofs.Session.Cascade
import Morphology.Proofs.Session.States

/-! Operations that amount to several smaller ones, in the sessions that runs lead to. What is said of the changes of
a graph is said again of the operations that ask for them, one after the other. -/

namespace Morphology

/-- Nothing but versions of nodes is different. -/
structure Session.SameButVersions (s s' : Session) : Prop where
  graph : s.graph.SameButVersions s'.graph
  rest : s' = { s with graph := s'.graph }

namespace Operation

variable {s s' : Session} {op : Operation} {c : Change} {answer : Answer}

theorem succeeds_perform {P : Outcome → Graph → Prop} (hc : Succeeds (c.run none) s.graph P) :
    Succeeds (change c).perform s fun answer s' =>
      s' = { s with graph := s'.graph } ∧ ∃ outcome, answer = .outcome outcome ∧ P outcome s'.graph := by
  obtain ⟨outcome, g', hrun, hp⟩ := hc
  have hedit : Succeeds (Action.edit (c.run none)) s fun outcome s' =>
      s' = { s with graph := s'.graph } ∧ P outcome s'.graph :=
    ⟨outcome, { s with graph := g' }, by simp only [Action.edit, hrun], rfl, hp⟩
  exact hedit.map fun outcome _ hdone => ⟨hdone.1, outcome, rfl, hdone.2⟩

theorem addMorph_of_perform {o : NodeId} {name : Option String} {seed : Option MorphId}
    (hop : op.change? = some (.addMorph o name seed)) (hrun : op.perform s = .ok answer s') :
    s' = { s with graph := s'.graph } ∧
      ∃ k, answer = .outcome (.morph k) ∧ Edit.addMorph o name seed s.graph = .ok k s'.graph := by
  have hadded : Ensures (Change.addMorph o name seed).perform s.graph fun outcome g =>
      ∃ k, outcome = .morph k ∧ Edit.addMorph o name seed s.graph = .ok k g :=
    Ensures.map (fun _ _ hr => hr) fun k _ hr => ⟨k, rfl, hr⟩
  obtain ⟨hrest, outcome, hanswer, k, rfl, hadded⟩ := ensures_perform hop hadded _ _ hrun
  exact ⟨hrest, k, hanswer, hadded⟩

theorem moveRef_of_perform {e : EdgeRef} {a b : MorphId} (hop : op.change? = some (.moveRef e a b))
    (hrun : op.perform s = .ok answer s') :
    s' = { s with graph := s'.graph } ∧ ∃ u, Edit.moveRef e a b s.graph = .ok u s'.graph := by
  have hmoved : Ensures (Change.moveRef e a b).perform s.graph fun _ g =>
      ∃ u, Edit.moveRef e a b s.graph = .ok u g :=
    Ensures.bind (fun _ _ hr => hr) fun u _ hr => .pure ⟨u, hr⟩
  obtain ⟨hrest, _, _, hmoved⟩ := ensures_perform hop hmoved _ _ hrun
  exact ⟨hrest, hmoved⟩

/-- Changes that can be made one after the other can be asked for one after the other. -/
theorem succeeds_performAll {cs : List Change} {P : List Outcome → Graph → Prop}
    (hcs : Succeeds (cs.mapM (Change.run none)) s.graph P) :
    Succeeds ((cs.map change).mapM perform) s fun answers s' =>
      s' = { s with graph := s'.graph } ∧ ∃ outcomes, answers = outcomes.map .outcome ∧ P outcomes s'.graph := by
  induction cs generalizing s P with
  | nil =>
    obtain ⟨outcomes, g', hrun, hp⟩ := hcs
    cases hrun
    exact .mapM_nil ⟨rfl, [], rfl, hp⟩
  | cons c cs ih =>
    rw [List.mapM_cons] at hcs
    refine .mapM_cons ((succeeds_perform hcs.of_bind).mono fun answer s₁ ⟨hrest, outcome, hanswer, hcs⟩ => ?_)
    refine (ih hcs.of_bind).mono fun answers s₂ ⟨hrest', outcomes, hanswers, hp⟩ => ?_
    obtain ⟨_, _, hpure, hp⟩ := hp
    cases hpure
    refine ⟨?_, outcome :: outcomes, by rw [hanswer, hanswers, List.map_cons], hp⟩
    rw [hrest', hrest]

end Operation

namespace Session

/-- Sessions that come from one by changes of the graph are alike if their graphs are. -/
theorem SameButVersions.of_graphs {s s' s'' : Session} (h' : s' = { s with graph := s'.graph })
    (h'' : s'' = { s with graph := s''.graph }) (hg : s'.graph.SameButVersions s''.graph) : s'.SameButVersions s'' where
  graph := hg
  rest := by rw [h'', h']

/-- What the operations that are made of others amount to. -/
structure Expands (s : Session) : Prop where
  /-- To move a reference is to copy it and to drop it where it was, and the edge stays. -/
  moved : ∀ {op e a b answer s'}, Operation.change? op = some (.moveRef e a b) → op.perform s = .ok answer s' →
    s'.graph.hasEdge e = true ∧ (a ≠ b →
      Succeeds ([.change (.copyRef e a b), .change (.unlistRef e a)].mapM Operation.perform) s fun answers s'' =>
        (∃ added, answers = [.outcome (.added added), .outcome (.deleted {})]) ∧ s''.SameButVersions s')
  /-- A morph with references of another is an empty one, to which they are copied, relations first. -/
  seeded : ∀ {op o name seed answer s'}, Operation.change? op = some (.addMorph o name (some seed)) →
    op.perform s = .ok answer s' → ∃ k m, answer = .outcome (.morph k) ∧ s.graph.morphs.get? seed = some m ∧
      Succeeds ((.change (.addMorph o name none) :: m.refs.map fun e => .change (.copyRef e seed k)).mapM
        Operation.perform) s fun answers s'' => (∃ copied, answers = answer :: copied) ∧ s''.SameButVersions s'
  /-- To delete a new morph is to be back where it was added, but for the number that it had. -/
  undone : ∀ {op o name seed answer s'}, Operation.change? op = some (.addMorph o name seed) →
    op.perform s = .ok answer s' → ∃ k, answer = .outcome (.morph k) ∧
      Succeeds (Operation.change (.deleteMorph k)).perform s' fun answer' s'' =>
        answer' = .outcome (.deleted { morphs := [k] }) ∧
          SameButVersions { s with graph := s.graph.modifyNode o Node.passNumber } s''

theorem expands_of_reachable {s : Session} (h : s.Reachable) : s.Expands where
  moved {op e a b answer s'} hop hrun := by
    obtain ⟨hrest, u, hmoved⟩ := Operation.moveRef_of_perform hop hrun
    obtain ⟨hkept, hsame⟩ := Edit.ensures_moveRef h.sound e a b u s'.graph hmoved
    refine ⟨hkept, fun hne => (Operation.succeeds_performAll (hsame hne)).mono ?_⟩
    rintro answers s'' ⟨hrest', outcomes, rfl, ⟨added, rfl⟩, hg⟩
    exact ⟨⟨added, rfl⟩, .of_graphs hrest' hrest hg⟩
  seeded {op o name seed answer s'} hop hrun := by
    obtain ⟨hrest, k, rfl, hadded⟩ := Operation.addMorph_of_perform hop hrun
    obtain ⟨m, hm, hsame⟩ := Edit.ensures_addMorph_seed h.sound o name seed k s'.graph hadded
    have hops : (Change.addMorph o name none :: m.refs.map (.copyRef · seed k)).map Operation.change =
        .change (.addMorph o name none) :: m.refs.map fun e => .change (.copyRef e seed k) := by
      rw [List.map_cons, List.map_map]
      rfl
    refine ⟨k, m, rfl, hm, hops ▸ (Operation.succeeds_performAll hsame).mono ?_⟩
    rintro answers s'' ⟨hrest', outcomes, rfl, ⟨copied, rfl⟩, hg⟩
    exact ⟨⟨copied.map .outcome, rfl⟩, .of_graphs hrest' hrest hg⟩
  undone {op o name seed answer s'} hop hrun := by
    obtain ⟨hrest, k, rfl, hadded⟩ := Operation.addMorph_of_perform hop hrun
    have hfree (k : MorphId) (hk : s.graph.morphs.get? k = none) : s.graph.FreeMorph k :=
      h.attainable.statesThere.freeMorph h.sound.framed hk
    have hdeleted := Edit.ensures_addMorph_deleteMorph h.sound hfree o name seed k s'.graph hadded
    refine ⟨k, rfl, (Operation.succeeds_perform hdeleted).mono ?_⟩
    rintro answer' s'' ⟨hrest', outcome, rfl, rfl, hg⟩
    exact ⟨rfl, hg, by rw [hrest', hrest]⟩

/-- The young crow may lose its color to the morph that has it as well, and may have a morph more made after it. -/
theorem expands_youngCrow :
    youngCrow.Reachable ∧ youngCrow.Expands ∧
      (∃ answer s', Operation.perform (.change
        (.moveRef (.attr ⟨"crow::color"⟩) ⟨"crow::morph::1"⟩ ⟨"crow::morph::0"⟩)) youngCrow = .ok answer s') ∧
      ∃ answer s', Operation.perform (.change
        (.addMorph ⟨"crow"⟩ (some "old") (some ⟨"crow::morph::1"⟩))) youngCrow = .ok answer s' :=
  ⟨reachable_youngCrow, expands_of_reachable reachable_youngCrow, ⟨_, _, rfl⟩, _, _, rfl⟩

end Session

end Morphology
