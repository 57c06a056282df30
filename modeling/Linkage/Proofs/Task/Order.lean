import Linkage.Task.Scheduler
import Mathlib.Data.List.Nodup
import Mathlib.Data.List.Perm.Basic

/-!
# The order of tasks that wait

Tasks wait in order of submission, and go in the order of their keys: the greatest first, and of several
with equal keys the one that was submitted first. The comparison of keys may be any total preorder.

* **`QueuedTask.Precedes`** — one task goes before another;
* **`first?_spec`** — the task that goes first goes before all others;
* **`inOrder`** — a stable sort by descending keys, which is the order in which tasks go (`inOrder_of_first?`),
  also of those that are left when some are taken out (`inOrder_filter`);
* **`first?_eq_some_iff`**, **`takeTask_perm`** — a heap that holds the tasks in whatever arrangement gives the
  same task, and loses no other when one is taken out of it.
-/

open scoped List

namespace Linkage

variable {κ β : Type}

/-! ## Which task goes before which -/

namespace QueuedTask

/-- Compares tasks; the greater one goes first. Of two with equal keys that is the one with the smaller
number. -/
def cmp (order : κ → κ → Ordering) (t u : QueuedTask κ β) : Ordering :=
  (order t.key u.key).then (compare u.id t.id)

/-- One task goes before another. -/
def Precedes (order : κ → κ → Ordering) (t u : QueuedTask κ β) : Prop :=
  order t.key u.key = .gt ∨ order t.key u.key = .eq ∧ t.id < u.id

variable {order : κ → κ → Ordering} {t u v : QueuedTask κ β}

theorem precedes_iff : t.Precedes order u ↔ cmp order t u = .gt := by
  unfold Precedes cmp
  cases order t.key u.key <;> simp [Nat.compare_eq_gt]

variable [Std.TransCmp order]

theorem Precedes.trans (h : t.Precedes order u) (h' : u.Precedes order v) : t.Precedes order v := by
  rcases h with hgt | ⟨heq, hid⟩ <;> rcases h' with hgt' | ⟨heq', hid'⟩
  · exact Or.inl (Std.TransCmp.gt_trans hgt hgt')
  · exact Or.inl (Std.TransCmp.gt_of_gt_of_eq hgt heq')
  · exact Or.inl (Std.TransCmp.gt_of_eq_of_gt heq hgt')
  · exact Or.inr ⟨Std.TransCmp.eq_trans heq heq', Nat.lt_trans hid hid'⟩

theorem Precedes.asymm (h : t.Precedes order u) : ¬ u.Precedes order t := by
  rintro (hgt' | ⟨heq', hid'⟩) <;> rcases h with hgt | ⟨heq, hid⟩
  · exact Std.OrientedCmp.not_gt_of_gt hgt hgt'
  · rw [Std.OrientedCmp.eq_symm heq] at hgt'
    cases hgt'
  · rw [Std.OrientedCmp.eq_symm heq'] at hgt
    cases hgt
  · omega

/-- Of two tasks that are not the same, one goes before the other. -/
theorem precedes_or (hid : t.id < u.id) : t.Precedes order u ∨ order u.key t.key = .gt := by
  cases h : order t.key u.key with
  | lt => exact Or.inr (Std.OrientedCmp.gt_of_lt h)
  | eq => exact Or.inl (Or.inr ⟨h, hid⟩)
  | gt => exact Or.inl (Or.inl h)

end QueuedTask

namespace Scheduler

variable {order : κ → κ → Ordering} {queue : List (QueuedTask κ β)} {t u : QueuedTask κ β}

/-! ## The task that goes first -/

theorem first?_eq_none : first? order queue = none ↔ queue = [] := by
  cases queue with
  | nil => simp [first?]
  | cons head rest =>
      unfold first?
      cases first? order rest with
      | none => simp
      | some u =>
          simp only
          split <;> simp

/-- The task that goes first is one of those that wait, and goes before all others. -/
theorem first?_spec [Std.TransCmp order] (hids : queue.Pairwise (·.id < ·.id))
    (h : first? order queue = some t) : t ∈ queue ∧ ∀ u ∈ queue, u ≠ t → t.Precedes order u := by
  induction queue generalizing t with
  | nil => cases h
  | cons head rest ih =>
      obtain ⟨hlater, hrest⟩ := List.pairwise_cons.mp hids
      unfold first? at h
      cases hfirst : first? order rest with
      | none =>
          simp only [hfirst, Option.some.injEq] at h
          subst h
          rw [first?_eq_none.mp hfirst]
          simp
      | some next =>
          obtain ⟨hmem, hbefore⟩ := ih hrest hfirst
          simp only [hfirst] at h
          split at h
          · -- a later task has a greater key
            rename_i hgt
            injection h with h
            subst h
            refine ⟨List.mem_cons_of_mem _ hmem, ?_⟩
            intro u hu hne
            rcases List.mem_cons.mp hu with rfl | hu
            · exact Or.inl hgt
            · exact hbefore u hu hne
          · rename_i hgt
            injection h with h
            subst h
            have hnext := (QueuedTask.precedes_or (hlater next hmem)).resolve_right hgt
            refine ⟨List.mem_cons_self, ?_⟩
            intro u hu hne
            rcases List.mem_cons.mp hu with rfl | hu
            · exact absurd rfl hne
            · by_cases hsame : u = next
              · exact hsame ▸ hnext
              · exact hnext.trans (hbefore u hu hsame)

/-! ## The order in which tasks go -/

/-- The tasks with the greatest keys first, those with equal keys as they come. -/
def inOrder (order : κ → κ → Ordering) (queue : List (QueuedTask κ β)) : List (QueuedTask κ β) :=
  queue.mergeSort fun t u => (order t.key u.key).isGE

theorem perm_inOrder (order : κ → κ → Ordering) (queue : List (QueuedTask κ β)) :
    (inOrder order queue).Perm queue := List.mergeSort_perm _ _

/-- Tasks are told by their numbers. -/
theorem eq_of_id (hids : queue.Pairwise (·.id < ·.id)) (ht : t ∈ queue) (hu : u ∈ queue)
    (hid : t.id = u.id) : t = u := by
  have hnodup : (queue.map QueuedTask.id).Nodup := by
    refine List.pairwise_map.mpr (hids.imp ?_)
    exact fun hlt => Nat.ne_of_lt hlt
  exact List.inj_on_of_nodup_map hnodup ht hu hid

/-- Taking one task out leaves all others. -/
theorem perm_cons_filter (hids : queue.Pairwise (·.id < ·.id)) (ht : t ∈ queue) :
    queue.Perm (t :: queue.filter (·.id ≠ t.id)) := by
  induction queue with
  | nil => cases ht
  | cons head rest ih =>
      obtain ⟨hlater, hrest⟩ := List.pairwise_cons.mp hids
      rcases List.mem_cons.mp ht with rfl | ht
      · have hothers : rest.filter (·.id ≠ t.id) = rest := by
          refine List.filter_eq_self.mpr ?_
          intro u hu
          have hlt := hlater u hu
          exact decide_eq_true (by omega)
        rw [List.filter_cons_of_neg (by simp), hothers]
      · have hne : head.id ≠ t.id := Nat.ne_of_lt (hlater t ht)
        rw [List.filter_cons_of_pos (by simpa using hne)]
        exact ((ih hrest ht).cons head).trans (List.Perm.swap ..)

section Sorted

variable [Std.TransCmp order]

/-- The order of the keys decides, and where it does not, the order of submission. -/
theorem pairwise_inOrder (hids : queue.Pairwise (·.id < ·.id)) :
    (inOrder order queue).Pairwise (QueuedTask.Precedes order) := by
  have htrans : ∀ t u v : QueuedTask κ β, (order t.key u.key).isGE → (order u.key v.key).isGE →
      (order t.key v.key).isGE := fun _ _ _ => Std.TransCmp.isGE_trans
  have htotal : ∀ t u : QueuedTask κ β, (order t.key u.key).isGE || (order u.key t.key).isGE := by
    intro t u
    have hflip : (order u.key t.key).isGE = (order t.key u.key).isLE := Std.OrientedCmp.isGE_eq_isLE
    rw [hflip]
    cases order t.key u.key <;> rfl
  induction queue with
  | nil => simp [inOrder]
  | cons head rest ih =>
      obtain ⟨hlater, hrest⟩ := List.pairwise_cons.mp hids
      -- the head is put after the tasks with greater keys, and before all others
      obtain ⟨before, after, hsorted, hothers, hgreater⟩ :=
        List.mergeSort_cons htrans htotal head rest
      have hall : (inOrder order (head :: rest)).Pairwise _ :=
        List.pairwise_mergeSort htrans htotal _
      have hih := ih hrest
      unfold inOrder at hih hall ⊢
      rw [hothers] at hih
      rw [hsorted] at hall ⊢
      obtain ⟨hbefore, hafter, hacross⟩ := List.pairwise_append.mp hih
      obtain ⟨-, hfrom, -⟩ := List.pairwise_append.mp hall
      refine List.pairwise_append.mpr ⟨hbefore, List.pairwise_cons.mpr ⟨?_, hafter⟩, ?_⟩
      · intro u hu
        have hmem : u ∈ rest := by
          have hplace : u ∈ rest.mergeSort fun t u => (order t.key u.key).isGE := by
            rw [hothers]
            exact List.mem_append_right _ hu
          exact List.mem_mergeSort.mp hplace
        refine (QueuedTask.precedes_or (hlater u hmem)).resolve_right ?_
        exact Std.OrientedCmp.not_gt_of_isGE ((List.pairwise_cons.mp hfrom).1 u hu)
      · intro t ht u hu
        rcases List.mem_cons.mp hu with rfl | hu
        · exact Or.inl (Std.OrientedCmp.gt_of_not_isGE (by simpa using hgreater t ht))
        · exact hacross t ht u hu

/-- There is no other order of the tasks in which each goes before all later ones. -/
theorem eq_inOrder (hids : queue.Pairwise (·.id < ·.id)) {tasks : List (QueuedTask κ β)}
    (hperm : tasks.Perm queue) (hsorted : tasks.Pairwise (QueuedTask.Precedes order)) :
    tasks = inOrder order queue := by
  refine List.Perm.eq_of_pairwise ?_ hsorted (pairwise_inOrder hids)
    (hperm.trans (perm_inOrder order queue).symm)
  intro t u _ _ h h'
  exact absurd h' h.asymm

/-- The tasks that are left when some are taken out go in the same order as before. -/
theorem inOrder_filter (hids : queue.Pairwise (·.id < ·.id)) (p : QueuedTask κ β → Bool) :
    inOrder order (queue.filter p) = (inOrder order queue).filter p :=
  (eq_inOrder (hids.filter p) ((perm_inOrder order queue).filter p)
    ((pairwise_inOrder hids).filter p)).symm

/-- The task that goes first is the first in order. -/
theorem inOrder_of_first? (hids : queue.Pairwise (·.id < ·.id)) (h : first? order queue = some t) :
    inOrder order queue = t :: inOrder order (queue.filter (·.id ≠ t.id)) := by
  obtain ⟨hmem, hbefore⟩ := first?_spec hids h
  refine (eq_inOrder hids ?_ ?_).symm
  · exact ((perm_inOrder ..).cons t).trans (perm_cons_filter hids hmem).symm
  · refine List.pairwise_cons.mpr ⟨?_, pairwise_inOrder (hids.filter _)⟩
    intro u hu
    obtain ⟨hu, hne⟩ := List.mem_filter.mp ((perm_inOrder ..).mem_iff.mp hu)
    refine hbefore u hu ?_
    rintro rfl
    simp at hne

/-! ## Heaps -/

/-- Whatever the arrangement of the tasks in a heap, what goes first is the greatest of them. -/
theorem first?_eq_some_iff (hids : queue.Pairwise (·.id < ·.id)) {heap : List (QueuedTask κ β)}
    (hheap : heap.Perm queue) :
    first? order queue = some t ↔ t ∈ heap ∧ ∀ u ∈ heap, QueuedTask.cmp order u t ≠ .gt := by
  refine ⟨?_, ?_⟩
  · intro h
    obtain ⟨hmem, hbefore⟩ := first?_spec hids h
    refine ⟨hheap.mem_iff.mpr hmem, ?_⟩
    intro u hu hgt
    have hprecedes := QueuedTask.precedes_iff.mpr hgt
    by_cases hsame : u = t
    · subst hsame
      exact hprecedes.asymm hprecedes
    · exact hprecedes.asymm (hbefore u (hheap.mem_iff.mp hu) hsame)
  · rintro ⟨hmem, hgreatest⟩
    cases hfirst : first? order queue with
    | none =>
        rw [first?_eq_none.mp hfirst, List.perm_nil] at hheap
        rw [hheap] at hmem
        cases hmem
    | some first =>
        obtain ⟨hfirstMem, hbefore⟩ := first?_spec hids hfirst
        by_contra hne
        have hprecedes := hbefore t (hheap.mem_iff.mp hmem) fun h => hne (congrArg some h.symm)
        exact hgreatest first (hheap.mem_iff.mpr hfirstMem) (QueuedTask.precedes_iff.mp hprecedes)

end Sorted

/-- Takes away the element at a place; the last one comes into its place. -/
def swapRemove {α : Type} (xs : List α) (i : Nat) : List α :=
  match xs.getLast? with
  | none => []
  | some last => (xs.set i last).dropLast

/-- Takes the task with a number out of a heap. -/
def takeTask (heap : List (QueuedTask κ β)) (id : Nat) :
    Option (QueuedTask κ β) × List (QueuedTask κ β) :=
  match heap.findIdx? (·.id == id) with
  | none => (none, heap)
  | some i => (heap[i]?, swapRemove heap i)

theorem perm_swapRemove {α : Type} {xs : List α} {i : Nat} (hi : i < xs.length) :
    xs.Perm (xs[i] :: swapRemove xs i) := by
  rcases List.eq_nil_or_concat xs with rfl | ⟨init, last, rfl⟩
  · cases hi
  · unfold swapRemove
    simp only [List.concat_eq_append, List.getLast?_append, List.getLast?_singleton, Option.some_or]
    simp only [List.concat_eq_append, List.length_append, List.length_singleton] at hi
    by_cases hlast : i = init.length
    · subst hlast
      simp
    · have hlt : i < init.length := by omega
      rw [List.set_append_left i last hlt, List.dropLast_concat, List.getElem_append_left hlt]
      calc
        (init ++ [last]).Perm (last :: init) := List.perm_append_singleton last init
        _ ~ last :: init[i] :: init.eraseIdx i := ((List.getElem_cons_eraseIdx_perm hlt).symm).cons last
        _ ~ init[i] :: last :: init.eraseIdx i := List.Perm.swap ..
        _ ~ init[i] :: init.set i last := ((List.set_perm_cons_eraseIdx hlt last).symm).cons _

/-- The other tasks stay. -/
theorem takeTask_perm (hids : queue.Pairwise (·.id < ·.id)) {heap : List (QueuedTask κ β)}
    (hheap : heap.Perm queue) (id : Nat) :
    (takeTask heap id).1 = queue.find? (·.id == id) ∧
      (takeTask heap id).2.Perm (queue.filter (·.id ≠ id)) := by
  unfold takeTask
  cases hplace : heap.findIdx? (·.id == id) with
  | none =>
      have hnone : ∀ t ∈ queue, ¬ t.id = id := by
        intro t ht
        simpa using List.findIdx?_eq_none_iff.mp hplace t (hheap.mem_iff.mpr ht)
      refine ⟨(List.find?_eq_none.mpr (by simpa using hnone)).symm, ?_⟩
      rw [List.filter_eq_self.mpr (by simpa using hnone)]
      exact hheap
  | some i =>
      obtain ⟨hi, hid, -⟩ := List.findIdx?_eq_some_iff_getElem.mp hplace
      have hid : heap[i].id = id := by simpa using hid
      have hmem : heap[i] ∈ queue := hheap.mem_iff.mp (List.getElem_mem hi)
      have hsplit := perm_cons_filter hids hmem
      rw [hid] at hsplit
      refine ⟨?_, ?_⟩
      · show heap[i]? = _
        rw [List.getElem?_eq_getElem hi]
        cases hfind : queue.find? (·.id == id) with
        | none => simpa [hid] using List.find?_eq_none.mp hfind _ hmem
        | some t =>
            have htid : t.id = heap[i].id := by simpa [hid] using List.find?_some hfind
            rw [eq_of_id hids (List.mem_of_find?_eq_some hfind) hmem htid]
      · exact (((perm_swapRemove hi).symm.trans hheap).trans hsplit).cons_inv

end Scheduler

end Linkage
