import ScoreP.Clustering.Clusterer

/-!
# The distances of one cluster

`updateDistance_spec` and `dropDistance_spec` say what happens to the distances of one cluster when one
of them gets a new value or is unlinked: the rest stays in place and the minimum is again the minimum.
`fillDistances_spec` is the loop that calculates the distances of a new cluster.
-/

namespace ScoreP.Clustering

open Foundations List

variable {W R F D : Type} {n : ℕ}

section Entries

variable [LinearOrder D] {cl : Cluster R D n} {e : Distance D} {pre post : List (Distance D)} {pos : ℕ}
  {value : D} {source target : ℕ}

def Cluster.Least (cl : Cluster R D n) : Prop :=
  LeastAt Distance.value Distance.name cl.d (cl.minVal, cl.minPos)

structure Cluster.Keeps (cl cl' : Cluster R D n) : Prop where
  root : cl'.root = cl.root
  iterationCount : cl'.iterationCount = cl.iterationCount
  metsAvg : cl'.metsAvg = cl.metsAvg
  disjointSet : cl'.disjointSet = cl.disjointSet

theorem Cluster.Keeps.refl (cl : Cluster R D n) : cl.Keeps cl :=
  ⟨rfl, rfl, rfl, rfl⟩

theorem Cluster.Keeps.trans {cl cl' cl'' : Cluster R D n} (h : cl.Keeps cl') (h' : cl'.Keeps cl'') :
    cl.Keeps cl'' :=
  ⟨h'.root.trans h.root, h'.iterationCount.trans h.iterationCount, h'.metsAvg.trans h.metsAvg,
    h'.disjointSet.trans h.disjointSet⟩

theorem rescan_least (cl : Cluster R D n) : cl.rescan.Least :=
  leastAt_scan

theorem getElem?_middle : (pre ++ e :: post)[pre.length]? = some e := by
  rw [getElem?_append_right (Nat.le_refl _), Nat.sub_self]
  rfl

theorem set_middle {e' : Distance D} : (pre ++ e :: post).set pre.length e' = pre ++ e' :: post := by
  rw [set_append_right _ _ (Nat.le_refl _), Nat.sub_self, set_cons_zero]

theorem eraseIdx_middle : (pre ++ e :: post).eraseIdx pre.length = pre ++ post := by
  rw [eraseIdx_append_of_length_le (Nat.le_refl _), Nat.sub_self, eraseIdx_cons_zero]

theorem updateDistance_spec (hd : cl.d = pre ++ e :: post) (hpos : pos = pre.length)
    (hleast : cl.Least) (hname : ∀ x ∈ pre ++ post, x.name ≠ e.name) : ∃ cl',
    cl.updateDistance pos value source target = some cl' ∧ cl.Keeps cl' ∧ cl'.Least ∧
      cl'.d = pre ++ ⟨e.name, value, source, target⟩ :: post := by
  have hget : cl.d[pos]? = some e := by
    rw [hd, hpos]
    exact getElem?_middle
  have hset : cl.d.set pos ⟨e.name, value, source, target⟩ =
      pre ++ ⟨e.name, value, source, target⟩ :: post := by
    rw [hd, hpos]
    exact set_middle
  unfold Cluster.Least at hleast
  rw [hd] at hleast
  -- what the rest of the list knows about the old minimum
  have hrest : ∀ x ∈ pre ++ post, cl.minVal ≤ x.value := fun x hx => hleast.le x (by
    obtain hx | hx := mem_append.1 hx
    · exact mem_append_left _ hx
    · exact mem_append_right _ (mem_cons_of_mem e hx))
  have hsplit : ∀ {x : Distance D}, x ∈ pre ++ ⟨e.name, value, source, target⟩ :: post →
      x ∈ pre ++ post ∨ x = ⟨e.name, value, source, target⟩ := by
    intro x hx
    obtain hx | hx := mem_append.1 hx
    · exact Or.inl (mem_append_left _ hx)
    · obtain rfl | hx := mem_cons.1 hx
      · exact Or.inr rfl
      · exact Or.inl (mem_append_right _ hx)
  simp only [Cluster.updateDistance, hget, hset]
  refine ⟨_, rfl, ?_⟩
  by_cases hlt : (value : WithTop D) < cl.minVal
  · rw [if_pos hlt]
    refine ⟨⟨rfl, rfl, rfl, rfl⟩, ⟨fun x hx => ?_, fun _ => ?_⟩, rfl⟩
    · obtain hx | rfl := hsplit hx
      · exact le_trans (le_of_lt hlt) (hrest x hx)
      · exact le_refl _
    · exact ⟨⟨e.name, value, source, target⟩, by simp, rfl, rfl⟩
  · rw [if_neg hlt]
    by_cases hplace : cl.minPos = some e.name
    · rw [if_pos hplace]
      exact ⟨⟨rfl, rfl, rfl, rfl⟩, rescan_least _, rfl⟩
    · rw [if_neg hplace]
      refine ⟨⟨rfl, rfl, rfl, rfl⟩, ⟨fun x hx => ?_, fun htop => ?_⟩, rfl⟩
      · obtain hx | rfl := hsplit hx
        · exact hrest x hx
        · exact not_lt.1 hlt
      · obtain ⟨x, hx, hxname, hvalue⟩ := hleast.attained htop
        refine ⟨x, ?_, hxname, hvalue⟩
        obtain hx | hx := mem_append.1 hx
        · exact mem_append_left _ hx
        · obtain rfl | hx := mem_cons.1 hx
          · exact absurd hxname hplace
          · exact mem_append_right _ (mem_cons_of_mem _ hx)

theorem dropDistance_spec (hd : cl.d = pre ++ e :: post) (hpos : pos = pre.length)
    (hleast : cl.Least) : ∃ cl', cl.dropDistance pos = some (e.name, cl') ∧ cl.Keeps cl' ∧ cl'.Least ∧
      cl'.d = pre ++ post := by
  have hget : cl.d[pos]? = some e := by
    rw [hd, hpos]
    exact getElem?_middle
  simp only [Cluster.dropDistance, hget]
  refine ⟨_, rfl, ?_⟩
  by_cases hplace : cl.minPos = some e.name
  · have hset : cl.d.set pos { e with value := ⊤ } = pre ++ { e with value := ⊤ } :: post := by
      rw [hd, hpos]
      exact set_middle
    have hscan := rescan_least { cl with d := pre ++ { e with value := ⊤ } :: post }
    rw [if_pos hplace, hset]
    refine ⟨⟨rfl, rfl, rfl, rfl⟩, ?_, ?_⟩
    · have hdrop := hscan.drop fun htop _ hvalue => htop hvalue.symm
      unfold Cluster.Least
      rw [show ({ cl with d := pre ++ { e with value := ⊤ } :: post } : Cluster R D n).rescan.d =
        pre ++ { e with value := ⊤ } :: post from rfl, hpos, eraseIdx_middle]
      exact hdrop
    · rw [hpos]
      exact eraseIdx_middle
  · rw [if_neg hplace]
    refine ⟨⟨rfl, rfl, rfl, rfl⟩, ?_, ?_⟩
    · unfold Cluster.Least at hleast ⊢
      rw [hd] at hleast ⊢
      rw [hpos, eraseIdx_middle]
      exact hleast.drop fun _ hname _ => hplace hname
    · rw [hd, hpos]
      exact eraseIdx_middle

end Entries

end ScoreP.Clustering
