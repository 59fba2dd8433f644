import ScoreP.Score.Profile

/-!
# The groups from the call tree

`calculate_calltree_types` changes the table that it reads. `Marks` is what a part of the traversal makes of
the table; an entry that it has changed is read like the definition type, as neither is above `COM`
(`Updated.aboveCom`). `calltree_types` is the table in the end, for every order of roots and children.
-/

namespace ScoreP.Score

open Relation

variable {regions processes : ℕ}

namespace Cnode

def children : Cnode regions processes → List (Cnode regions processes)
  | .node _ _ _ _ _ children => children

def HasChild (node child : Cnode regions processes) : Prop := child ∈ node.children

end Cnode

/-- `type > SCOREP_SCORE_TYPE_COM` -/
def ScoreType.AboveCom (type : ScoreType) : Prop := ScoreType.com.ctorIdx < type.ctorIdx

/-- A node of the forest is of a region with a type above `COM`. -/
def OnPath (types : Fin regions → ScoreType) (forest : List (Cnode regions processes)) : Prop :=
  ∃ root ∈ forest, ∃ node, ReflTransGen Cnode.HasChild root node ∧ (types node.callee).AboveCom

def LeadsOn (types : Fin regions → ScoreType) (forest : List (Cnode regions processes))
    (region : Fin regions) : Prop :=
  ∃ root ∈ forest, ∃ node, ReflTransGen Cnode.HasChild root node ∧ node.callee = region ∧
    ∃ descendant, TransGen Cnode.HasChild node descendant ∧ (types descendant.callee).AboveCom

inductive Reordered : List (Cnode regions processes) → List (Cnode regions processes) → Prop
  | perm {forest forest'} (h : forest.Perm forest') : Reordered forest forest'
  | inside {children children'} (callee visits hits numParameters strParameters others)
      (h : Reordered children children') :
    Reordered (.node callee visits hits numParameters strParameters children :: others)
      (.node callee visits hits numParameters strParameters children' :: others)
  | trans {forest forest' forest''} (h : Reordered forest forest') (h' : Reordered forest' forest'') :
    Reordered forest forest''

def Marks (types before after : Fin regions → ScoreType) (leads : Fin regions → Prop) : Prop :=
  ∀ region, (types region = .usr ∧ leads region → after region = .com) ∧
    (¬(types region = .usr ∧ leads region) → after region = before region)

def Updated (types table : Fin regions → ScoreType) : Prop :=
  ∀ region, table region = types region ∨ types region = .usr ∧ table region = .com

variable {types table before after : Fin regions → ScoreType}
  {forest forest' : List (Cnode regions processes)} {leads leads' : Fin regions → Prop}

@[simp] theorem onPath_nil : ¬OnPath types ([] : List (Cnode regions processes)) := by
  simp [OnPath]

@[simp] theorem leadsOn_nil {region : Fin regions} :
    ¬LeadsOn types ([] : List (Cnode regions processes)) region := by
  simp [LeadsOn]

theorem onPath_cons {node : Cnode regions processes} : OnPath types (node :: forest) ↔
    ((types node.callee).AboveCom ∨ OnPath types node.children) ∨ OnPath types forest := by
  have hnode : (∃ n, ReflTransGen Cnode.HasChild node n ∧ (types n.callee).AboveCom) ↔
      (types node.callee).AboveCom ∨ OnPath types node.children := by
    simp only [ReflTransGen.cases_head_iff (a := node), or_and_right, exists_or, exists_eq_left']
    apply or_congr_right
    constructor
    · rintro ⟨n, ⟨child, hchild, hn⟩, habove⟩
      exact ⟨child, hchild, n, hn, habove⟩
    · rintro ⟨child, hchild, n, hn, habove⟩
      exact ⟨n, ⟨child, hchild, hn⟩, habove⟩
  simp only [OnPath, List.mem_cons, exists_eq_or_imp]
  exact or_congr_left hnode

theorem leadsOn_cons {node : Cnode regions processes} {region : Fin regions} :
    LeadsOn types (node :: forest) region ↔
      (LeadsOn types node.children region ∨ node.callee = region ∧ OnPath types node.children) ∨
        LeadsOn types forest region := by
  have hbelow : ∀ n : Cnode regions processes,
      (∃ d, TransGen Cnode.HasChild n d ∧ (types d.callee).AboveCom) ↔ OnPath types n.children := by
    intro n
    simp only [TransGen.head'_iff]
    constructor
    · rintro ⟨d, ⟨child, hchild, hd⟩, habove⟩
      exact ⟨child, hchild, d, hd, habove⟩
    · rintro ⟨child, hchild, d, hd, habove⟩
      exact ⟨d, ⟨child, hchild, hd⟩, habove⟩
  have hnode : (∃ n, ReflTransGen Cnode.HasChild node n ∧ n.callee = region ∧ OnPath types n.children) ↔
      LeadsOn types node.children region ∨ node.callee = region ∧ OnPath types node.children := by
    simp only [LeadsOn, hbelow]
    constructor
    · rintro ⟨n, hn, hregion, hpath⟩
      rcases hn.cases_head with rfl | ⟨child, hchild, hn⟩
      · exact .inr ⟨hregion, hpath⟩
      · exact .inl ⟨child, hchild, n, hn, hregion, hpath⟩
    · rintro (⟨child, hchild, n, hn, hregion, hpath⟩ | ⟨hregion, hpath⟩)
      · exact ⟨n, .head hchild hn, hregion, hpath⟩
      · exact ⟨node, .refl, hregion, hpath⟩
  simp only [LeadsOn, List.mem_cons, exists_eq_or_imp, hbelow] at hnode ⊢
  exact or_congr_left hnode

theorem Reordered.paths (h : Reordered forest forest') : (OnPath types forest ↔ OnPath types forest') ∧
      ∀ region, LeadsOn types forest region ↔ LeadsOn types forest' region := by
  induction h with
  | perm h => simp [OnPath, LeadsOn, h.mem_iff]
  | inside callee visits hits numParameters strParameters others h ih =>
    simp [onPath_cons, leadsOn_cons, Cnode.callee, Cnode.children, ih.1, ih.2]
  | trans h h' ih ih' => exact ⟨ih.1.trans ih'.1, fun region => (ih.2 region).trans (ih'.2 region)⟩

theorem Updated.aboveCom (h : Updated types table) (region : Fin regions) :
    (table region).AboveCom ↔ (types region).AboveCom := by
  rcases h region with hsame | ⟨husr, hcom⟩
  · rw [hsame]
  · rw [husr, hcom, ScoreType.AboveCom, ScoreType.AboveCom]
    decide

theorem Marks.updated (h : Marks types before after leads) (hbefore : Updated types before) :
    Updated types after := by
  intro region
  by_cases hmarked : types region = .usr ∧ leads region
  · exact .inr ⟨hmarked.1, (h region).1 hmarked⟩
  · rw [(h region).2 hmarked]
    exact hbefore region

theorem Marks.trans (h : Marks types before table leads) (h' : Marks types table after leads') :
    Marks types before after fun region => leads region ∨ leads' region := by
  intro region
  constructor
  · rintro ⟨husr, hleads⟩
    by_cases hlater : leads' region
    · exact (h' region).1 ⟨husr, hlater⟩
    · rw [(h' region).2 fun hboth => hlater hboth.2]
      exact (h region).1 ⟨husr, hleads.resolve_right hlater⟩
  · intro hnone
    rw [(h' region).2 fun hboth => hnone ⟨hboth.1, .inr hboth.2⟩]
    exact (h region).2 fun hboth => hnone ⟨hboth.1, .inl hboth.2⟩

theorem Marks.congr (h : Marks types before after leads) (hleads : ∀ region, leads region ↔ leads' region) :
    Marks types before after leads' :=
  (funext fun region => propext (hleads region) : leads = leads') ▸ h

namespace Profile

theorem marks_callee (h : Updated types table) (callee : Fin regions) {isOnPath : Bool} {path : Prop}
    (hpath : isOnPath = true ↔ path) : Marks types table
      (if isOnPath && decide (table callee = .usr) then Function.update table callee .com else table)
      fun region => callee = region ∧ path := by
  intro region
  by_cases hregion : callee = region
  · subst hregion
    rcases h callee with hsame | ⟨husr, hcom⟩
    · cases isOnPath <;> grind
    · simp [hcom, husr]
  · split <;> simp [hregion, Function.update_of_ne (Ne.symm hregion)]

mutual

theorem calculateCalltreeTypes_spec (node : Cnode regions processes) (table : Fin regions → ScoreType)
    (h : Updated types table) : ((calculateCalltreeTypes node table).1 = true ↔ OnPath types [node]) ∧
      Marks types table (calculateCalltreeTypes node table).2 (LeadsOn types [node]) := by
  cases node with
  | node callee visits hits numParameters strParameters children =>
    obtain ⟨hpath, hmarks⟩ := calculateChildTypes_spec children table h
    have hcallee := marks_callee (hmarks.updated h) callee hpath
    rw [calculateCalltreeTypes]
    constructor
    · rw [onPath_cons, Bool.or_eq_true, decide_eq_true_eq, hpath]
      have habove := (hmarks.updated h).aboveCom callee
      rw [ScoreType.AboveCom] at habove
      simp [habove, Cnode.callee, Cnode.children, or_comm]
    · apply (hmarks.trans hcallee).congr
      intro region
      simp [leadsOn_cons, Cnode.callee, Cnode.children]

theorem calculateChildTypes_spec (forest : List (Cnode regions processes))
    (table : Fin regions → ScoreType) (h : Updated types table) :
    ((calculateChildTypes forest table).1 = true ↔ OnPath types forest) ∧
      Marks types table (calculateChildTypes forest table).2 (LeadsOn types forest) := by
  cases forest with
  | nil => simp [calculateChildTypes, Marks]
  | cons node forest =>
    obtain ⟨hpath, hmarks⟩ := calculateCalltreeTypes_spec node table h
    obtain ⟨hpath', hmarks'⟩ := calculateChildTypes_spec forest _ (hmarks.updated h)
    rw [calculateChildTypes]
    constructor
    · rw [Bool.or_eq_true, hpath, hpath']
      simp [onPath_cons]
    · apply (hmarks.trans hmarks').congr
      intro region
      simp [leadsOn_cons]

end

theorem getDefinitionType_ne_com (profile : Profile) (region : Fin profile.numberOfRegions) :
    profile.getDefinitionType region ≠ .com := by
  rw [getDefinitionType]
  repeat' apply iteInduction (motive := (· ≠ ScoreType.com)) <;> intro _
  all_goals decide

theorem isGroup_getGroup (profile : Profile) (region : Fin profile.numberOfRegions) :
    (profile.getGroup region).IsGroup := by
  have hmarks := (calculateChildTypes_spec profile.roots profile.getDefinitionType fun _ => .inl rfl).2
  rw [getGroup, regionTypes]
  rcases hmarks.updated (fun _ => .inl rfl) region with hsame | ⟨_, hcom⟩
  · rw [hsame]
    exact profile.isGroup_getDefinitionType region
  · rw [hcom]
    decide

/-- A region of the user is in the group `COM` if one of its nodes leads on to a type above `COM`, and no
other region changes its group; the order of the forest does not matter. No definition type is `COM`. -/
theorem calltree_types (types : Fin regions → ScoreType) (forest : List (Cnode regions processes)) :
    (∀ region, types region ≠ .com → ((calculateChildTypes forest types).2 region = .com ↔
        types region = .usr ∧ LeadsOn types forest region)) ∧
    (∀ region, ¬(types region = .usr ∧ LeadsOn types forest region) →
      (calculateChildTypes forest types).2 region = types region) ∧ (∀ forest', Reordered forest forest' →
      (calculateChildTypes forest' types).2 = (calculateChildTypes forest types).2) ∧
    ∀ (profile : Profile) (region : Fin profile.numberOfRegions), profile.getDefinitionType region ≠ .com ∧
      (profile.getGroup region = .com ↔ profile.getDefinitionType region = .usr ∧
        LeadsOn profile.getDefinitionType profile.roots region) := by
  have hmarks : ∀ {n p : ℕ} (types : Fin n → ScoreType) (forest : List (Cnode n p)),
      Marks types types (calculateChildTypes forest types).2 (LeadsOn types forest) :=
    fun _ forest => (calculateChildTypes_spec forest _ fun _ => .inl rfl).2
  have hcom : ∀ {n p : ℕ} (types : Fin n → ScoreType) (forest : List (Cnode n p)) (region : Fin n),
      types region ≠ .com → ((calculateChildTypes forest types).2 region = .com ↔
        types region = .usr ∧ LeadsOn types forest region) := by
    intro n p types forest region hne
    constructor
    · intro hgroup
      by_contra hnone
      rw [(hmarks types forest region).2 hnone] at hgroup
      exact hne hgroup
    · exact (hmarks types forest region).1
  refine ⟨hcom types forest, fun region => (hmarks types forest region).2, ?_, ?_⟩
  · intro forest' hreordered
    funext region
    have hleads := (@Reordered.paths _ _ types _ _ hreordered).2 region
    by_cases hmarked : types region = .usr ∧ LeadsOn types forest region
    · rw [(hmarks types forest region).1 hmarked,
        (hmarks types forest' region).1 ⟨hmarked.1, hleads.1 hmarked.2⟩]
    · rw [(hmarks types forest region).2 hmarked,
        (hmarks types forest' region).2 fun hboth => hmarked ⟨hboth.1, hleads.2 hboth.2⟩]
  · intro profile region
    have hne := profile.getDefinitionType_ne_com region
    exact ⟨hne, hcom _ _ region hne⟩

end Profile

end ScoreP.Score
