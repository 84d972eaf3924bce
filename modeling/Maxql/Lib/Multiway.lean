import Maxql.Lib.SortedEntries
import Mathlib.Data.List.Nodup
import Mathlib.Data.List.Pairwise

/-!
# Multiway search trees

A tree of height `h` over labels `ι` and entries `α`.  The height is part of
the type, so the leaves of one tree are all at the same depth.  A node of
height zero has no children; a node of height `h + 1` is meant to have one
child more than it has entries, and `Fits` says so together with the bounds on
the number of entries.

`toList` reads the entries from left to right.  `weaveLeft` and `weaveRight`
are the parts of that reading on the two sides of one child, and the lemmas
about them move a change of one child, a split or a merge of neighbours out to
the whole tree.
-/

namespace Multiway

open SortedEntries

/-- One node: its label, its entries and what hangs below it. -/
structure Node (ι α C : Type) where
  label : ι
  entries : List α
  children : List C

/-- What hangs below a node of height `h`. -/
@[reducible] def Kid (ι α : Type) : Nat → Type
  | 0 => Empty
  | h + 1 => Node ι α (Kid ι α h)

/-- A tree whose leaves are `h` levels below its root. -/
abbrev Tree (ι α : Type) (h : Nat) := Node ι α (Kid ι α h)

section Weave

variable {α : Type}

/-- `l₁ e₁ l₂ e₂ …`: each list followed by an entry. -/
def weaveLeft : List α → List (List α) → List α
  | e :: es, l :: ls => l ++ e :: weaveLeft es ls
  | _, _ => []

/-- `e₁ l₁ e₂ l₂ …`: each list preceded by an entry. -/
def weaveRight : List α → List (List α) → List α
  | e :: es, l :: ls => e :: (l ++ weaveRight es ls)
  | _, _ => []

/-- `l₀ e₁ l₁ e₂ l₂ …`: the entries between the lists. -/
def weave (es : List α) : List (List α) → List α
  | [] => es
  | l :: ls => l ++ weaveRight es ls

@[simp] theorem weaveLeft_nil : weaveLeft ([] : List α) [] = [] := rfl

@[simp] theorem weaveRight_nil : weaveRight ([] : List α) [] = [] := rfl

theorem weaveRight_append {es₁ es₂ : List α} {ls₁ ls₂ : List (List α)}
    (h : es₁.length = ls₁.length) :
    weaveRight (es₁ ++ es₂) (ls₁ ++ ls₂)
      = weaveRight es₁ ls₁ ++ weaveRight es₂ ls₂ := by
  induction es₁ generalizing ls₁ with
  | nil =>
    rw [List.length_nil] at h
    rw [List.eq_nil_of_length_eq_zero h.symm]
    rfl
  | cons e es ih =>
    cases ls₁ with
    | nil => simp at h
    | cons l ls =>
      simp only [List.cons_append, weaveRight]
      rw [ih (by simpa using h)]
      simp

/-- The reading of a node with one child in focus. -/
theorem weave_focus {es₁ es₂ : List α} {ls₁ ls₂ : List (List α)} (l : List α)
    (h : es₁.length = ls₁.length) :
    weave (es₁ ++ es₂) (ls₁ ++ l :: ls₂)
      = weaveLeft es₁ ls₁ ++ l ++ weaveRight es₂ ls₂ := by
  induction es₁ generalizing ls₁ with
  | nil =>
    rw [List.length_nil] at h
    rw [List.eq_nil_of_length_eq_zero h.symm]
    rfl
  | cons e es ih =>
    cases ls₁ with
    | nil => simp at h
    | cons l' ls =>
      have hlen : es.length = ls.length := by simpa using h
      have ih := ih hlen
      cases ls with
      | nil =>
        have hes : es = [] := List.eq_nil_of_length_eq_zero (by simpa using hlen)
        subst hes
        simp [weave, weaveLeft, weaveRight]
      | cons l'' ls =>
        simp only [List.cons_append, weave, weaveLeft, weaveRight] at ih ⊢
        rw [ih]
        simp

/-- Cutting a node at an entry cuts its reading there. -/
theorem weave_split {es₁ es₂ : List α} {ls₁ ls₂ : List (List α)} (e : α)
    (h₁ : ls₁.length = es₁.length + 1) (h₂ : ls₂.length = es₂.length + 1) :
    weave (es₁ ++ e :: es₂) (ls₁ ++ ls₂) = weave es₁ ls₁ ++ e :: weave es₂ ls₂ := by
  cases ls₁ with
  | nil => simp at h₁
  | cons l ls =>
    cases ls₂ with
    | nil => simp at h₂
    | cons l' ls' =>
      have hlen : es₁.length = ls.length := by simpa using h₁.symm
      simp only [List.cons_append, weave]
      rw [weaveRight_append hlen]
      simp [weaveRight]

theorem sublist_weaveLeft {es : List α} {ls : List (List α)}
    (h : es.length = ls.length) : es.Sublist (weaveLeft es ls) := by
  induction es generalizing ls with
  | nil => exact List.nil_sublist _
  | cons e es ih =>
    cases ls with
    | nil => simp at h
    | cons l ls =>
      have hlen : es.length = ls.length := by simpa using h
      have hrest := (ih hlen).cons_cons e
      exact hrest.trans (List.sublist_append_right l _)

theorem sublist_weaveRight {es : List α} {ls : List (List α)}
    (h : es.length = ls.length) : es.Sublist (weaveRight es ls) := by
  induction es generalizing ls with
  | nil => exact List.nil_sublist _
  | cons e es ih =>
    cases ls with
    | nil => simp at h
    | cons l ls =>
      have hlen : es.length = ls.length := by simpa using h
      have hrest := ih hlen
      exact (hrest.trans (List.sublist_append_right l _)).cons_cons e

theorem sublist_weave {es : List α} {ls : List (List α)}
    (h : ls.length = es.length + 1) : es.Sublist (weave es ls) := by
  cases ls with
  | nil => simp at h
  | cons l ls =>
    have hlen : es.length = ls.length := by simpa using h.symm
    have hrest := sublist_weaveRight hlen
    exact hrest.trans (List.sublist_append_right l _)

end Weave

section Bounds

variable {K V : Type} {cmp : K → K → Int} (hc : TotalCmp cmp)

include hc

/-- Left of a child, the separators bound everything from above. -/
theorem below_weaveLeft {es : List (K × V)} {ls : List (List (K × V))} {k : K}
    (hlen : es.length = ls.length) (hasc : Ascending cmp (weaveLeft es ls))
    (hk : Below cmp es k) : Below cmp (weaveLeft es ls) k := by
  induction es generalizing ls with
  | nil => exact fun x hx => absurd hx (by simp [weaveLeft])
  | cons e es ih =>
    cases ls with
    | nil => simp at hlen
    | cons l ls =>
      obtain ⟨hek, hk⟩ := below_cons.1 hk
      obtain ⟨_, hright, hcross⟩ := ascending_append.1 hasc
      have hl : Below cmp l e.1 := fun x hx => hcross x hx e (by simp)
      have hlen' : es.length = ls.length := by simpa using hlen
      have hrest := ih hlen' (ascending_cons.1 hright).2 hk
      exact below_append.2 ⟨hl.trans hc hek, below_cons.2 ⟨hek, hrest⟩⟩

/-- Right of a child, the separators bound everything from below. -/
theorem above_weaveRight {es : List (K × V)} {ls : List (List (K × V))} {k : K}
    (hlen : es.length = ls.length) (hasc : Ascending cmp (weaveRight es ls))
    (hk : Above cmp es k) : Above cmp (weaveRight es ls) k := by
  induction es generalizing ls with
  | nil => exact fun x hx => absurd hx (by simp [weaveRight])
  | cons e es ih =>
    cases ls with
    | nil => simp at hlen
    | cons l ls =>
      obtain ⟨hek, hk⟩ := above_cons.1 hk
      obtain ⟨habove, hright⟩ := ascending_cons.1 hasc
      have hl : Above cmp l e.1 := habove.sublist (List.sublist_append_left _ _)
      have hlen' : es.length = ls.length := by simpa using hlen
      have hrest := ih hlen' (ascending_append.1 hright).2.1 hk
      exact above_cons.2 ⟨hek, above_append.2 ⟨hl.trans hc hek, hrest⟩⟩

end Bounds

section Trees

variable {ι α : Type}

/-- The entries from left to right. -/
def toList : (h : Nat) → Tree ι α h → List α
  | 0, t => t.entries
  | h + 1, t => weave t.entries (t.children.map (toList h))

/-- The labels of all nodes, a node before its children. -/
def labels : (h : Nat) → Tree ι α h → List ι
  | 0, t => [t.label]
  | h + 1, t => t.label :: t.children.flatMap (labels h)

/-- Every node below the root has between `min` and `max` entries, the root
has at least `lo` and at most `max`, and an inner node has one child more than
it has entries. -/
def Fits (min max : Nat) : (h : Nat) → (lo : Nat) → Tree ι α h → Prop
  | 0, lo, t => lo ≤ t.entries.length ∧ t.entries.length ≤ max
  | h + 1, lo, t => lo ≤ t.entries.length ∧ t.entries.length ≤ max ∧
      t.children.length = t.entries.length + 1 ∧
      ∀ c ∈ t.children, Fits min max h min c

variable {min max h lo : Nat}

theorem Fits.lo_le {t : Tree ι α h} (ht : Fits min max h lo t) :
    lo ≤ t.entries.length := by
  cases h <;> exact ht.1

theorem Fits.le_max {t : Tree ι α h} (ht : Fits min max h lo t) :
    t.entries.length ≤ max := by
  cases h
  · exact ht.2
  · exact ht.2.1

theorem Fits.children_length {t : Tree ι α (h + 1)} (ht : Fits min max (h + 1) lo t) :
    t.children.length = t.entries.length + 1 := ht.2.2.1

theorem Fits.child {t : Tree ι α (h + 1)} (ht : Fits min max (h + 1) lo t)
    {c : Tree ι α h} (hc : c ∈ t.children) : Fits min max h min c := ht.2.2.2 c hc

/-- Only the lower bound depends on `lo`. -/
theorem Fits.of_le {t : Tree ι α h} {lo' : Nat} (ht : Fits min max h lo t)
    (hlo : lo' ≤ t.entries.length) : Fits min max h lo' t := by
  cases h
  · exact ⟨hlo, ht.2⟩
  · exact ⟨hlo, ht.2⟩

theorem Fits.mono {t : Tree ι α h} {min' lo' : Nat} (ht : Fits min max h lo t)
    (hmin : min' ≤ min) (hlo : lo' ≤ lo) : Fits min' max h lo' t := by
  induction h generalizing lo lo' with
  | zero => exact ⟨Nat.le_trans hlo ht.1, ht.2⟩
  | succ h ih =>
    obtain ⟨hle, hmax, hlen, hcs⟩ := ht
    exact ⟨Nat.le_trans hlo hle, hmax, hlen, fun c hc => ih (hcs c hc) hmin⟩

/-- What `Fits` says about everything below the entries of the root. -/
def ChildrenFit (min max : Nat) : (h : Nat) → Tree ι α h → Prop
  | 0, _ => True
  | h + 1, t => t.children.length = t.entries.length + 1 ∧
      ∀ c ∈ t.children, Fits min max h min c

theorem fits_iff {t : Tree ι α h} :
    Fits min max h lo t ↔
      lo ≤ t.entries.length ∧ t.entries.length ≤ max ∧ ChildrenFit min max h t := by
  cases h <;> simp [Fits, ChildrenFit]

theorem label_mem_labels (h : Nat) (t : Tree ι α h) : t.label ∈ labels h t := by
  cases h <;> simp [labels]

/-- The child between the entries `es₁` and the entries `es₂`. -/
theorem exists_focus {β γ : Type} {es₁ es₂ : List β} {cs : List γ}
    (hlen : cs.length = (es₁ ++ es₂).length + 1) :
    ∃ cs₁ c cs₂, cs = cs₁ ++ c :: cs₂ ∧ cs₁.length = es₁.length ∧
      cs₂.length = es₂.length := by
  rw [List.length_append] at hlen
  have hi : es₁.length < cs.length := by omega
  refine ⟨cs.take es₁.length, cs[es₁.length], cs.drop (es₁.length + 1), ?_, ?_, ?_⟩
  · rw [List.getElem_cons_drop, List.take_append_drop]
  · rw [List.length_take]; omega
  · rw [List.length_drop]; omega

/-- The reading of a tree with one child in focus. -/
theorem toList_focus (a : ι) {es₁ es₂ : List α} {cs₁ cs₂ : List (Tree ι α h)}
    (c : Tree ι α h) (hlen : es₁.length = cs₁.length) :
    toList (h + 1) ⟨a, es₁ ++ es₂, cs₁ ++ c :: cs₂⟩
      = weaveLeft es₁ (cs₁.map (toList h)) ++ toList h c
        ++ weaveRight es₂ (cs₂.map (toList h)) := by
  have hl : es₁.length = (cs₁.map (toList h)).length := by simpa using hlen
  simp only [toList, List.map_append, List.map_cons]
  exact weave_focus (toList h c) hl

/-- The reading of a tree with two neighbouring children in focus. -/
theorem toList_focus_two (a : ι) {es₁ es₂ : List α} {cs₁ cs₂ : List (Tree ι α h)}
    (c d : Tree ι α h) (e : α) (hlen : es₁.length = cs₁.length) :
    toList (h + 1) ⟨a, es₁ ++ e :: es₂, cs₁ ++ c :: d :: cs₂⟩
      = weaveLeft es₁ (cs₁.map (toList h)) ++ (toList h c ++ e :: toList h d)
        ++ weaveRight es₂ (cs₂.map (toList h)) := by
  rw [toList_focus a c hlen, List.map_cons, weaveRight]
  simp

/-- The reading of a tree cut at one of its own entries. -/
theorem toList_split (a b : ι) (es₁ es₂ : List α) (cs₁ cs₂ : List (Tree ι α h))
    (e : α) (h₁ : cs₁.length = es₁.length + 1) (h₂ : cs₂.length = es₂.length + 1) :
    toList (h + 1) ⟨a, es₁ ++ e :: es₂, cs₁ ++ cs₂⟩
      = toList (h + 1) ⟨a, es₁, cs₁⟩ ++ e :: toList (h + 1) ⟨b, es₂, cs₂⟩ := by
  simp only [toList, List.map_append]
  exact weave_split e (by simpa using h₁) (by simpa using h₂)

theorem entries_sublist_toList {t : Tree ι α h} (hfit : ChildrenFit min max h t) :
    t.entries.Sublist (toList h t) := by
  cases h with
  | zero => exact List.Sublist.refl _
  | succ h => exact sublist_weave (by simpa using hfit.1)

theorem Fits.lo_le_length_toList {t : Tree ι α h} (ht : Fits min max h lo t) :
    lo ≤ (toList h t).length := by
  obtain ⟨hlo, -, hchildren⟩ := fits_iff.1 ht
  exact Nat.le_trans hlo (entries_sublist_toList hchildren).length_le

/-- A tree of more than one level holds more than two of its nodes must have. -/
theorem Fits.lt_length_toList {t : Tree ι α (h + 1)} (ht : Fits min max (h + 1) lo t)
    (hlo : 0 < lo) : 2 * min < (toList (h + 1) t).length := by
  have hentries := ht.lo_le
  have hlen := ht.children_length
  have hchild := fun c hc => (ht.child (c := c) hc).lo_le_length_toList
  obtain ⟨a, es, cs⟩ := t
  dsimp only at hentries hlen hchild
  obtain ⟨e, es, rfl⟩ : ∃ e es', es = e :: es' := List.exists_cons_of_length_pos (by omega)
  rw [List.length_cons] at hlen
  obtain ⟨c, cs, rfl⟩ : ∃ c cs', cs = c :: cs' := List.exists_cons_of_length_pos (by omega)
  rw [List.length_cons] at hlen
  obtain ⟨d, cs, rfl⟩ : ∃ d cs', cs = d :: cs' := List.exists_cons_of_length_pos (by omega)
  have hc := hchild c List.mem_cons_self
  have hd := hchild d (List.mem_cons_of_mem _ List.mem_cons_self)
  have hfocus := @toList_focus_two _ _ _ a [] es [] cs c d e rfl
  rw [List.nil_append, List.nil_append] at hfocus
  rw [hfocus, List.length_append, List.length_append, List.length_append, List.length_cons]
  omega

/-- A tree has more nodes than levels. -/
theorem height_lt_labels_length {t : Tree ι α h} (ht : Fits min max h lo t) :
    h < (labels h t).length := by
  induction h generalizing lo with
  | zero => simp [labels]
  | succ h ih =>
    have hlen := ht.children_length
    obtain ⟨c, cs, hcs⟩ : ∃ c cs, t.children = c :: cs :=
      List.exists_cons_of_length_pos (by omega)
    have hcount := ih (ht.child (hcs ▸ List.mem_cons_self))
    simp only [labels, hcs, List.flatMap_cons, List.length_cons, List.length_append]
    omega

/-- The roots of some trees are among their labels. -/
theorem roots_sublist_labels (cs : List (Tree ι α h)) :
    (cs.map Node.label).Sublist (cs.flatMap (labels h)) := by
  induction cs with
  | nil => exact List.Sublist.slnil
  | cons c cs ih =>
    have hc : [c.label].Sublist (labels h c) :=
      List.singleton_sublist.2 (label_mem_labels h c)
    simpa using hc.append ih

/-- Trees without a common label are told apart by any label. -/
theorem eq_of_mem_labels {cs : List (Tree ι α h)} (hnodup : (cs.flatMap (labels h)).Nodup)
    {c d : Tree ι α h} {x : ι} (hc : c ∈ cs) (hd : d ∈ cs) (hxc : x ∈ labels h c)
    (hxd : x ∈ labels h d) : c = d := by
  by_contra hne
  have hdis := (List.nodup_flatMap.1 hnodup).2
  have hsymm : Std.Symm (Function.onFun List.Disjoint (labels (ι := ι) (α := α) h)) :=
    ⟨fun _ _ hcd => List.disjoint_symm hcd⟩
  exact hdis.forall hc hd hne hxc hxd

/-- The labels of a tree with some neighbouring children in focus. -/
theorem labels_focus (a : ι) (es : List α) (cs₁ ms cs₂ : List (Tree ι α h)) :
    labels (h + 1) ⟨a, es, cs₁ ++ ms ++ cs₂⟩
      = (a :: cs₁.flatMap (labels h)) ++ ms.flatMap (labels h)
        ++ cs₂.flatMap (labels h) := by
  simp [labels]

/-! ## Splits -/

/-- What stays left of entry `m` when a node is split there. -/
def leftHalf (m : Nat) (t : Tree ι α h) : Tree ι α h :=
  ⟨t.label, t.entries.take m, t.children.take (m + 1)⟩

/-- What goes to the node `q` when a node is split at entry `m`. -/
def rightHalf (m : Nat) (q : ι) (t : Tree ι α h) : Tree ι α h :=
  ⟨q, t.entries.drop (m + 1), t.children.drop (m + 1)⟩

theorem eq_take_cons_drop {xs : List α} {m : Nat} {e : α} (he : xs[m]? = some e) :
    xs = xs.take m ++ e :: xs.drop (m + 1) := by
  obtain ⟨hm, rfl⟩ := List.getElem?_eq_some_iff.1 he
  rw [List.getElem_cons_drop, List.take_append_drop]

/-- A split keeps the reading. -/
theorem toList_halves {t : Tree ι α h} {m : Nat} {e : α} (q : ι)
    (he : t.entries[m]? = some e) (hfit : ChildrenFit min max h t) :
    toList h (leftHalf m t) ++ e :: toList h (rightHalf m q t) = toList h t := by
  have hes := eq_take_cons_drop he
  have hm := (List.getElem?_eq_some_iff.1 he).1
  cases h with
  | zero => exact hes.symm
  | succ h =>
    have hlen : t.children.length = t.entries.length + 1 := hfit.1
    have hsplit := toList_split t.label q (t.entries.take m) (t.entries.drop (m + 1))
      (t.children.take (m + 1)) (t.children.drop (m + 1)) e
      (by rw [List.length_take, List.length_take]; omega)
      (by rw [List.length_drop, List.length_drop]; omega)
    rw [← hes, List.take_append_drop] at hsplit
    exact hsplit.symm

/-- A split adds one label. -/
theorem labels_halves (t : Tree ι α h) (m : Nat) (q : ι) :
    (labels h (leftHalf m t) ++ labels h (rightHalf m q t)).Perm (q :: labels h t) := by
  cases h with
  | zero => exact List.Perm.swap q t.label []
  | succ h =>
    have hcs : t.children.flatMap (labels h)
        = (t.children.take (m + 1)).flatMap (labels h)
          ++ (t.children.drop (m + 1)).flatMap (labels h) := by
      rw [← List.flatMap_append, List.take_append_drop]
    simp only [labels, leftHalf, rightHalf]
    rw [hcs]
    exact @List.perm_middle _ q (t.label :: (t.children.take (m + 1)).flatMap (labels h))
      ((t.children.drop (m + 1)).flatMap (labels h))

theorem childrenFit_halves {t : Tree ι α h} {m : Nat} (q : ι)
    (hm : m < t.entries.length) (hfit : ChildrenFit min max h t) :
    ChildrenFit min max h (leftHalf m t) ∧ ChildrenFit min max h (rightHalf m q t) := by
  cases h with
  | zero => exact ⟨trivial, trivial⟩
  | succ h =>
    obtain ⟨hlen, hcs⟩ := hfit
    refine ⟨⟨?_, fun c hc => hcs c (List.mem_of_mem_take hc)⟩, ?_,
      fun c hc => hcs c (List.mem_of_mem_drop hc)⟩
    · simp only [leftHalf, List.length_take]; omega
    · simp only [rightHalf, List.length_drop]; omega

/-! ## Rotations

An entry that moves between two neighbours takes along the children on its far
side: one above leaves, none at a leaf. -/

/-- The number of children that belong to `n` gaps. -/
def kidCount : (h : Nat) → Nat → Nat
  | 0, _ => 0
  | _ + 1, n => n

theorem kidCount_add (h a b : Nat) : kidCount h a + kidCount h b = kidCount h (a + b) := by
  cases h <;> simp [kidCount]

/-- The labels below the root. -/
def kidLabels : (h : Nat) → List (Kid ι α h) → List ι
  | 0, _ => []
  | h + 1, cs => cs.flatMap (labels h)

/-- The labels of the children. -/
def kidRoots : (h : Nat) → List (Kid ι α h) → List ι
  | 0, _ => []
  | _ + 1, cs => cs.map Node.label

/-- All children are within the bounds. -/
def KidsFit (min max : Nat) : (h : Nat) → List (Kid ι α h) → Prop
  | 0, _ => True
  | h + 1, cs => ∀ c ∈ cs, Fits min max h min c

theorem labels_eq (t : Tree ι α h) : labels h t = t.label :: kidLabels h t.children := by
  cases h <;> rfl

@[simp] theorem kidLabels_append (cs ds : List (Kid ι α h)) :
    kidLabels h (cs ++ ds) = kidLabels h cs ++ kidLabels h ds := by
  cases h
  · rfl
  · exact List.flatMap_append

@[simp] theorem kidRoots_append (cs ds : List (Kid ι α h)) :
    kidRoots h (cs ++ ds) = kidRoots h cs ++ kidRoots h ds := by
  cases h
  · rfl
  · exact List.map_append

@[simp] theorem kidsFit_append (cs ds : List (Kid ι α h)) :
    KidsFit min max h (cs ++ ds) ↔ KidsFit min max h cs ∧ KidsFit min max h ds := by
  cases h
  · exact ⟨fun _ => ⟨trivial, trivial⟩, fun _ => trivial⟩
  · simp [KidsFit, or_imp, forall_and]

theorem kidRoots_sublist_labels (cs : List (Kid ι α h)) :
    (kidRoots h cs).Sublist (kidLabels h cs) := by
  cases h
  · exact List.Sublist.slnil
  · exact roots_sublist_labels cs

private theorem no_kids (cs : List (Kid ι α 0)) : cs = [] := by
  cases cs with
  | nil => rfl
  | cons c _ => exact c.elim

theorem childrenFit_iff {t : Tree ι α h} :
    ChildrenFit min max h t ↔
      t.children.length = kidCount h (t.entries.length + 1) ∧
        KidsFit min max h t.children := by
  cases h with
  | zero => simp [ChildrenFit, KidsFit, kidCount, no_kids t.children]
  | succ h => exact Iff.rfl

/-- A node with the children behind its last entry set apart. -/
theorem exists_last {t : Tree ι α h} (hfit : ChildrenFit min max h t)
    (hne : t.entries ≠ []) :
    ∃ es x cs m, t = ⟨t.label, es ++ [x], cs ++ m⟩ ∧
      cs.length = kidCount h (es.length + 1) ∧ m.length = kidCount h 1 := by
  obtain ⟨a, es, cs⟩ := t
  obtain ⟨hlen, _⟩ := childrenFit_iff.1 hfit
  have hsplit : es.dropLast ++ [es.getLast hne] = es := List.dropLast_append_getLast hne
  have hes : 0 < es.length := List.length_pos_iff.2 hne
  refine ⟨es.dropLast, es.getLast hne, cs.take (kidCount h es.length),
    cs.drop (kidCount h es.length), ?_, ?_, ?_⟩
  · rw [hsplit, List.take_append_drop]
  · cases h
    · simp [kidCount]
    · simp only [kidCount, List.length_dropLast, List.length_take] at hlen ⊢; omega
  · cases h
    · simp [kidCount, no_kids cs]
    · simp only [kidCount, List.length_drop] at hlen ⊢; omega

/-- A node with the children before its first entry set apart. -/
theorem exists_first {t : Tree ι α h} (hfit : ChildrenFit min max h t)
    (hne : t.entries ≠ []) :
    ∃ x es m cs, t = ⟨t.label, x :: es, m ++ cs⟩ ∧
      m.length = kidCount h 1 ∧ cs.length = kidCount h (es.length + 1) := by
  obtain ⟨a, es, cs⟩ := t
  obtain ⟨hlen, _⟩ := childrenFit_iff.1 hfit
  obtain ⟨x, es', rfl⟩ := List.exists_cons_of_ne_nil hne
  refine ⟨x, es', cs.take (kidCount h 1), cs.drop (kidCount h 1), ?_, ?_, ?_⟩
  · rw [List.take_append_drop]
  · cases h
    · simp [kidCount]
    · simp only [kidCount, List.length_cons, List.length_take] at hlen ⊢; omega
  · cases h
    · simp [kidCount, no_kids cs]
    · simp only [kidCount, List.length_cons, List.length_drop] at hlen ⊢; omega

variable {es₁ es₂ : List α} {x s : α} {cs₁ m cs₂ : List (Kid ι α h)}

/-- An entry that goes through the separator leaves the reading as it is. -/
theorem toList_rotate (b d : ι) (x s : α) (h₁ : cs₁.length = kidCount h (es₁.length + 1))
    (hm : m.length = kidCount h 1) (h₂ : cs₂.length = kidCount h (es₂.length + 1)) :
    toList h ⟨b, es₁ ++ [x], cs₁ ++ m⟩ ++ s :: toList h ⟨d, es₂, cs₂⟩
      = toList h ⟨b, es₁, cs₁⟩ ++ x :: toList h ⟨d, s :: es₂, m ++ cs₂⟩ := by
  cases h with
  | zero => simp [toList]
  | succ h =>
    obtain ⟨c, rfl⟩ := List.length_eq_one_iff.1 hm
    have hleft := toList_split b d es₁ [] cs₁ [c] x h₁ rfl
    have hright := toList_split d d [] es₂ [c] cs₂ s rfl h₂
    rw [List.nil_append] at hright
    rw [hleft, hright]
    simp

/-- A node reads on inside of one with an entry more in front. -/
theorem toList_sublist_cons (a : ι) (s : α) (hm : m.length = kidCount h 1)
    (h₂ : cs₂.length = kidCount h (es₂.length + 1)) :
    (toList h ⟨a, es₂, cs₂⟩).Sublist (toList h ⟨a, s :: es₂, m ++ cs₂⟩) := by
  cases h with
  | zero => exact List.sublist_cons_self s es₂
  | succ h =>
    have hsplit := toList_split a a [] es₂ m cs₂ s hm h₂
    rw [List.nil_append] at hsplit
    rw [hsplit]
    exact (List.sublist_cons_self _ _).trans (List.sublist_append_right _ _)

/-- A node reads on inside of one with an entry more at the end. -/
theorem toList_sublist_concat (a : ι) (s : α) (h₁ : cs₁.length = kidCount h (es₁.length + 1))
    (hm : m.length = kidCount h 1) :
    (toList h ⟨a, es₁, cs₁⟩).Sublist (toList h ⟨a, es₁ ++ [s], cs₁ ++ m⟩) := by
  cases h with
  | zero => exact List.sublist_append_left es₁ [s]
  | succ h =>
    rw [toList_split a a es₁ [] cs₁ m s h₁ hm]
    exact List.sublist_append_left _ _

/-- A rotation moves labels, it neither adds nor drops one. -/
theorem labels_rotate (b d : ι) (es₁ es₁' es₂ es₂' : List α)
    (cs₁ m cs₂ : List (Kid ι α h)) :
    (labels h ⟨b, es₁, cs₁ ++ m⟩ ++ labels h ⟨d, es₂, cs₂⟩).Perm
      (labels h ⟨b, es₁', cs₁⟩ ++ labels h ⟨d, es₂', m ++ cs₂⟩) := by
  simp only [labels_eq, kidLabels_append, List.cons_append, List.append_assoc]
  exact List.Perm.cons b (List.Perm.append_left _ List.perm_middle)

end Trees

section Search

variable {ι K V : Type} {cmp : K → K → Int} {h : Nat}

/-- In a search tree, a key that lies between two neighbouring separators lies
between everything left and everything right of the child between them. -/
theorem context_bounds (hc : TotalCmp cmp) {a : ι} {es₁ es₂ : List (K × V)}
    {cs₁ cs₂ : List (Tree ι (K × V) h)} {c : Tree ι (K × V) h} {k : K}
    (h₁ : es₁.length = cs₁.length) (h₂ : es₂.length = cs₂.length)
    (hasc : Ascending cmp (toList (h + 1) ⟨a, es₁ ++ es₂, cs₁ ++ c :: cs₂⟩))
    (hk₁ : Below cmp es₁ k) (hk₂ : Above cmp es₂ k) :
    Below cmp (weaveLeft es₁ (cs₁.map (toList h))) k ∧
      Above cmp (weaveRight es₂ (cs₂.map (toList h))) k ∧
      Ascending cmp (toList h c) := by
  rw [toList_focus a c h₁] at hasc
  obtain ⟨hleft, hright, _⟩ := ascending_append.1 hasc
  obtain ⟨hl, hcasc, _⟩ := ascending_append.1 hleft
  exact ⟨below_weaveLeft hc (by simpa using h₁) hl hk₁,
    above_weaveRight hc (by simpa using h₂) hright hk₂, hcasc⟩

/-- Such a key, if it is in the tree, is in that child. -/
theorem mem_child (hc : TotalCmp cmp) {a : ι} {es₁ es₂ : List (K × V)}
    {cs₁ cs₂ : List (Tree ι (K × V) h)} {c : Tree ι (K × V) h} {k : K}
    (h₁ : es₁.length = cs₁.length) (h₂ : es₂.length = cs₂.length)
    (hasc : Ascending cmp (toList (h + 1) ⟨a, es₁ ++ es₂, cs₁ ++ c :: cs₂⟩))
    (hk₁ : Below cmp es₁ k) (hk₂ : Above cmp es₂ k)
    (hk : k ∈ (toList (h + 1) ⟨a, es₁ ++ es₂, cs₁ ++ c :: cs₂⟩).map Prod.fst) :
    k ∈ (toList h c).map Prod.fst := by
  obtain ⟨hleft, hright, _⟩ := context_bounds hc h₁ h₂ hasc hk₁ hk₂
  rw [toList_focus a c h₁, List.map_append, List.map_append] at hk
  rcases List.mem_append.1 hk with hk | hk
  · rcases List.mem_append.1 hk with hk | hk
    · exact absurd hk (hleft.not_mem hc)
    · exact hk
  · exact absurd hk (hright.not_mem hc)

/-- A separator lies between everything in the two children next to it. -/
theorem neighbour_bounds {a : ι} {es₁ es₂ : List (K × V)}
    {cs₁ cs₂ : List (Tree ι (K × V) h)} {c d : Tree ι (K × V) h} {s : K × V}
    (h₁ : es₁.length = cs₁.length)
    (hasc : Ascending cmp (toList (h + 1) ⟨a, es₁ ++ s :: es₂, cs₁ ++ c :: d :: cs₂⟩)) :
    Below cmp (toList h c) s.1 ∧ Above cmp (toList h d) s.1 := by
  rw [toList_focus_two a c d s h₁] at hasc
  obtain ⟨hleft, _, _⟩ := ascending_append.1 hasc
  obtain ⟨_, hmid, _⟩ := ascending_append.1 hleft
  exact hmid.split

/-- The entries around a child are apart from what it holds. -/
theorem child_bounds {a : ι} {es₁ es₂ : List (K × V)} {cs₁ cs₂ : List (Tree ι (K × V) h)}
    {c : Tree ι (K × V) h} (h₁ : es₁.length = cs₁.length) (h₂ : es₂.length = cs₂.length)
    (hasc : Ascending cmp (toList (h + 1) ⟨a, es₁ ++ es₂, cs₁ ++ c :: cs₂⟩)) {x : K × V}
    (hx : x ∈ toList h c) : Below cmp es₁ x.1 ∧ Above cmp es₂ x.1 := by
  rw [toList_focus a c h₁] at hasc
  obtain ⟨hleft, _, hright⟩ := ascending_append.1 hasc
  obtain ⟨_, _, hmid⟩ := ascending_append.1 hleft
  have hlen₁ : es₁.length = (cs₁.map (toList h)).length := by simpa using h₁
  have hlen₂ : es₂.length = (cs₂.map (toList h)).length := by simpa using h₂
  have hes₁ := sublist_weaveLeft hlen₁
  have hes₂ := sublist_weaveRight hlen₂
  refine ⟨fun e he => hmid e (hes₁.subset he) x hx, fun e he => ?_⟩
  exact hright x (List.mem_append_right _ hx) e (hes₂.subset he)

end Search

/-! ## Other labels -/

section Relabelled

variable {ι κ α : Type}

/-- The same entries in the same shape. -/
def Alike : (h : Nat) → Tree ι α h → Tree κ α h → Prop
  | 0, t, t' => t'.entries = t.entries
  | h + 1, t, t' => t'.entries = t.entries ∧ List.Forall₂ (Alike h) t.children t'.children

variable {h : Nat} {t : Tree ι α h} {t' : Tree κ α h}

/-- The reading does not depend on the labels. -/
theorem Alike.toList_eq (ht : Alike h t t') : toList h t' = toList h t := by
  induction h with
  | zero => exact ht
  | succ h ih =>
    obtain ⟨hentries, hcs⟩ := ht
    have hmap : t'.children.map (toList h) = t.children.map (toList h) := by
      apply List.forall₂_eq_eq_eq ▸ List.forall₂_map_left_iff.2 (List.forall₂_map_right_iff.2 _)
      exact hcs.flip.imp fun _ _ hc => ih hc
    rw [toList, toList, hentries, hmap]

theorem Alike.fits {min max lo : Nat} (ht : Alike h t t') (hfit : Fits min max h lo t) :
    Fits min max h lo t' := by
  induction h generalizing lo with
  | zero =>
    rw [Fits, show t'.entries = t.entries from ht]
    exact hfit
  | succ h ih =>
    obtain ⟨hentries, hcs⟩ := ht
    obtain ⟨hlo, hmax, hlen, hkids⟩ := hfit
    rw [Fits, hentries, ← hcs.length_eq]
    refine ⟨hlo, hmax, hlen, fun c' hc' => ?_⟩
    obtain ⟨i, hi, rfl⟩ := List.mem_iff_getElem.1 hc'
    have hi' : i < t.children.length := hcs.length_eq ▸ hi
    exact ih (hcs.get hi' hi) (hkids _ (List.getElem_mem hi'))

end Relabelled

end Multiway
