import Morphology.Proofs.Graph.Names
import Morphology.Proofs.Session.Attainable

/-! Names in sessions. Whatever has been done, two names resolve to one node exactly where they are one name in two
spellings. A node is found under its name as long as no node is deleted whose name stands for it while another one, an
imported node, has the name too. -/

namespace Morphology

theorem Operation.perform_resolve (name : String) (qualifier : Option String) (s : Session) :
    (resolve name qualifier).perform s =
      .ok (.node (s.graph.resolve name qualifier).1) { s with graph := (s.graph.resolve name qualifier).2 } :=
  rfl

/-- The operation goes through, and deletes a node that holds its name against another one. -/
def Session.Strands (s : Session) (op : Operation) : Prop :=
  ∃ o, op.change? = some (.deleteNode o) ∧ s.graph.SharesName o ∧ ∃ answer s', op.perform s = .ok answer s'

namespace Graph

open Edit

variable {g : Graph}

theorem Registered.leaves_run (h : g.Registered) (hf : g.Framed) (guard : Option Guard) {c : Change}
    (hc : ∀ o, c ≠ .deleteNode o) : Leaves (c.run guard) g Registered := by
  refine .reads_bind (Guard.reads_check guard c) h fun _ _ => ?_
  by_cases hneutral : c.Neutral
  · exact outlastsMorphs_registered.leaves_perform hf h hneutral hc
  · exact (sameFrame_perform g hneutral).mono fun _ hs => hs.sameNames.registered h

theorem outlastsDocuments_registered (schema : Schema) :
    OutlastsDocuments schema fun g => g.Framed ∧ g.Registered where
  resolve name qualifier h := ⟨h.1.resolve name qualifier, h.2.resolve name qualifier⟩
  addMorph o name h := (outlastsChanges_framed.leaves_addMorph h.1 h.1 o name none).and
    (outlastsMorphs_registered.leaves_addMorph h.1 h.2 o name none)
  writeEdge k _ _ _ h := (h.1.leaves_writeEdge k _).and <|
    outlastsMorphs_registered.leaves_writeEdge h.2 h.2.resolve k fun g₁ h₁ _ =>
      (sameFrame_withRecord g₁ _).sameNames.registered h₁

theorem outlastsOperations_registered :
    OutlastsOperations (fun c => ∀ o, c ≠ .deleteNode o) fun g => g.Framed ∧ g.Registered where
  document := outlastsDocuments_registered
  importNode id name qualifier h := ⟨h.1.importNode id name qualifier, h.2.importNode id name qualifier⟩
  run guard hc h := (framed_run h.1 guard _).and (h.2.leaves_run h.1 guard hc)
  updateNode _ _ := nofun
  updateAttribute _ _ _ _ := nofun
  deleteEdges es h := (outlastsChanges_framed.leaves_deleteEdges h.1 es).and
    (outlastsMorphs_registered.leaves_deleteEdges h.2 es)
  withTransitions ts h := ⟨h.1.withTransitions ts, h.2⟩

/-- References and edges that go before a node bear no names. -/
theorem Registered.ensures_deleteNode (h : g.Registered) (guard : Option Guard) (o : NodeId) :
    Ensures ((Change.deleteNode o).run guard) g fun _ g' => g'.Registered ↔ ¬g.SharesName o := by
  refine .reads_bind (Guard.reads_check guard _) fun _ _ => ?_
  refine ((outlasts_sameFrame g).ensures_deleteNode (.refl g) o).map fun _ _ ⟨g₁, n, hs, _, hn, hg'⟩ => ?_
  rw [hg', registered_withoutNode (hs.sameNames.registered h) hn]
  exact not_congr ⟨hs.sameNames.symm.sharesName, hs.sameNames.sharesName⟩

theorem Registered.refuses_deleteNode (h : g.Registered) (guard : Option Guard) (o : NodeId) :
    Refuses ((Change.deleteNode o).run guard) g Registered := by
  refine .reads_bind (Guard.reads_check guard _) h fun _ _ => ?_
  exact (outlastsMorphs_registered.toOutlasts.refuses_deleteNode h o).map

end Graph

namespace Session

open Morphology.Graph

variable {s : Session} {op : Operation} {o : NodeId}

theorem registered_of_deletes (h : s.graph.Registered) (hop : op.change? = some (.deleteNode o)) :
    Ensures op.perform s (fun _ s' => s'.graph.Registered ↔ ¬s.graph.SharesName o) ∧
      Refuses op.perform s fun s' => s'.graph.Registered := by
  have hensures := Operation.ensures_change hop fun guard => h.ensures_deleteNode guard o
  exact ⟨hensures.mono fun _ _ ⟨_, _, _, hiff⟩ => hiff,
    Operation.refuses_change hop fun guard => h.refuses_deleteNode guard o⟩

theorem not_strands (h : op.change? = none) : ¬s.Strands op := by
  rintro ⟨o, ho, -⟩
  rw [h] at ho
  cases ho

/-- Names are lost where a node is stranded, and nowhere else. -/
theorem registered_after (hf : s.graph.Framed) (h : s.graph.Registered) (op : Operation) :
    (s.after op).graph.Registered ↔ ¬s.Strands op := by
  by_cases hdeletes : ∃ o, op.change? = some (.deleteNode o)
  · obtain ⟨o, ho⟩ := hdeletes
    obtain ⟨hensures, hrefuses⟩ := registered_of_deletes h ho
    unfold after
    split
    · rename_i answer s' hok
      refine Iff.trans (hensures answer s' hok) (not_congr ⟨fun hshares => ⟨o, ho, hshares, answer, s', hok⟩, ?_⟩)
      rintro ⟨p, hp, hshares, -⟩
      rw [ho] at hp
      cases hp
      exact hshares
    · rename_i e s' herror
      refine iff_of_true (hrefuses e s' herror) ?_
      rintro ⟨-, -, -, answer, s'', hok⟩
      rw [herror] at hok
      cases hok
  · refine iff_of_true ?_ fun ⟨o, ho, _⟩ => hdeletes ⟨o, ho⟩
    have hadmitted : op.Admitted fun c => ∀ o, c ≠ .deleteNode o := by
      rintro c hc o rfl
      exact hdeletes ⟨o, hc⟩
    exact (outlastsOperations_registered.after ⟨hf, h⟩ hadmitted).2

/-- One after the other, two names resolve to one node exactly where they are one name in two spellings; the second time
nothing is changed then. A node that is made gets an id that no node has, and the others stay as they are. -/
theorem resolve_iff_sameName (h : s.Attainable) (a b : String) (qa qb : Option String) :
    ∃ i j s₁ s₂, (Operation.resolve a qa).perform s = .ok (.node i) s₁ ∧
      (Operation.resolve b qb).perform s₁ = .ok (.node j) s₂ ∧
      (i = j ↔ NameKey.ofName a qa = .ofName b qb) ∧
      (NameKey.ofName a qa = .ofName b qb → s₂ = s₁) ∧
      (s₁ = s ∨ s.graph.nodes.contains i = false) ∧
      (∀ k n, s.graph.nodes.get? k = some n → s₁.graph.nodes.get? k = some n) ∧
      ∃ n, s₁.graph.nodes.get? i = some n ∧ n.nameKey = .ofName a qa := by
  have hf := h.framed
  refine ⟨_, _, _, _, Operation.perform_resolve a qa s, Operation.perform_resolve b qb _, hf.resolve_eq_iff,
    fun hkey => ?_, ?_, fun k n hn => ?_, ?_⟩
  · simp only [hf.resolve_again hkey]
  · refine (hf.resolve_new a qa).imp (fun hsame => ?_) And.left
    rw [hsame]
  · rcases hf.resolve_new a qa with hsame | ⟨hfree, hkept⟩
    · exact hsame.symm ▸ hn
    · refine (hkept k ?_).trans hn
      rintro rfl
      rw [Table.contains_eq_false.mp hfree] at hn
      cases hn
  · exact (hf.resolve a qa).named (hf.resolve_spec a qa).2.2

/-- Two nodes of one name, which stands for the first of them. -/
def perched : Session :=
  ((fresh {} ⟨{}, {}⟩).after (.resolve "Crow" none)).after (.importNode ⟨"elsewhere/birds/crow"⟩ "crow" none)

/-- Names that are different have two nodes, also where one slug is made of them. -/
theorem resolve_perched : perched.Attainable ∧ NameBook.idSlug "hooded crow" none = NameBook.idSlug "Hooded_Crow" none ∧
    ∃ i j s₁ s₂, (Operation.resolve "hooded crow" none).perform perched = .ok (.node i) s₁ ∧
      (Operation.resolve "Hooded_Crow" none).perform s₁ = .ok (.node j) s₂ ∧ i ≠ j := by
  have hattainable : perched.Attainable :=
    ⟨{}, ⟨{}, {}⟩, (Relation.ReflTransGen.single ⟨_, trivial, rfl⟩).tail ⟨_, trivial, rfl⟩⟩
  obtain ⟨i, j, s₁, s₂, hi, hj, hiff, -⟩ := resolve_iff_sameName hattainable "hooded crow" "Hooded_Crow" none none
  have hkeys : NameKey.ofName "hooded crow" none ≠ .ofName "Hooded_Crow" none := by decide +kernel
  exact ⟨hattainable, by decide +kernel, i, j, s₁, s₂, hi, hj, mt hiff.mp hkeys⟩

/-- Every node is found under its name, so that none is made beside it, as long as no operation strands a node; and the
first one that does leaves a node that is not found. -/
theorem found_of_run {settings : Settings} {schema : Schema}
    (hrun : RunWhere (fun s op => ¬s.Strands op) (fresh settings schema) s) :
    s.graph.Found ∧
    (∀ k n name qualifier, s.graph.nodes.get? k = some n → n.nameKey = .ofName name qualifier →
      ∃ i, (Operation.resolve name qualifier).perform s = .ok (.node i) s) ∧
    ∀ op, (s.after op).graph.Found ↔ ¬s.Strands op := by
  obtain ⟨hf, hr⟩ : s.graph.Framed ∧ s.graph.Registered := by
    refine RunWhere.invariant (I := fun s => s.graph.Framed ∧ s.graph.Registered) hrun
      ⟨framed_empty _, registered_empty _⟩ ?_
    rintro s op ⟨hf, hr⟩ hop
    exact ⟨framed_after hf op, (registered_after hf hr op).mpr hop⟩
  refine ⟨hf.found_iff.mpr hr, fun k n name qualifier hn hkey => ?_, fun op => ?_⟩
  · obtain ⟨o, ho⟩ := hr k n hn
    rw [hkey] at ho
    exact ⟨o, by rw [Operation.perform_resolve, resolve_known ho]⟩
  · rw [(framed_after hf op).found_iff, registered_after hf hr op]

/-- Of two nodes of one name, the one may be deleted and the other one may not. -/
theorem found_perched : RunWhere (fun s op => ¬s.Strands op) (fresh {} ⟨{}, {}⟩) perched ∧ perched.graph.Found ∧
    (perched.after (.change (.deleteNode ⟨"elsewhere/birds/crow"⟩))).graph.Found ∧
    ¬(perched.after (.change (.deleteNode ⟨"local/default/crow"⟩))).graph.Found := by
  have hrun : RunWhere (fun s op => ¬s.Strands op) (fresh {} ⟨{}, {}⟩) perched :=
    (Relation.ReflTransGen.single ⟨_, not_strands rfl, rfl⟩).tail ⟨_, not_strands rfl, rfl⟩
  obtain ⟨hfound, -, hafter⟩ := found_of_run hrun
  refine ⟨hrun, hfound, (hafter _).mpr ?_, mt (hafter _).mp (not_not.mpr ?_)⟩
  · rintro ⟨o, ⟨⟩, ⟨n, -, -, hn, hname, -⟩, -⟩
    have hother : (perched.graph.nodes.get? ⟨"elsewhere/birds/crow"⟩).map
        (fun n => perched.graph.names.byName.get? n.nameKey) = some (some ⟨"local/default/crow"⟩) := by
      decide +kernel
    rw [hn, Option.map_some, hname] at hother
    revert hother
    decide
  · refine ⟨⟨"local/default/crow"⟩, rfl, ?_, _, _, rfl⟩
    refine ⟨Node.new ⟨"local/default/crow"⟩ "Crow" none, ⟨"elsewhere/birds/crow"⟩,
      Node.new ⟨"elsewhere/birds/crow"⟩ "crow" none, ?_⟩
    decide +kernel

end Session

end Morphology
