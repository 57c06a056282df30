import Linkage.Proofs.ClassFile.RoundTrip

/-!
# Which references survive

Constants with several parts are found again by their parts joined with colons, and a colon may stand
in a part as well. References whose joined texts agree become one, and a reference whose signature
joins like an earlier one comes back with the parts of that one. So the references are read back as
they were given exactly if joined texts tell the parts apart (`Draft.Unambiguous`); names and owners
without colons are enough for that.
-/

namespace Linkage.ClassFile

/-- The texts that references are found again by tell their parts apart. -/
structure Draft.Unambiguous (d : Draft) : Prop where
  signatures : ∀ r ∈ d.memberRefs, ∀ s ∈ d.memberRefs, joined r = joined s →
    r.name = s.name ∧ r.descriptor = s.descriptor
  references : ∀ r ∈ d.memberRefs, ∀ s ∈ d.memberRefs,
    (Entry.member r).label = (Entry.member s).label → r = s

namespace Draft

variable {d : Draft} {r : MemberRef}

/-- The signature that a reference shares is that of the first one that joins to the same text. -/
theorem exists_standIn (hr : r ∈ d.memberRefs) :
    ∃ s ∈ d.memberRefs, d.memberRefs.find? (fun s => joined s = joined r) = some s ∧
      joined s = joined r ∧ d.standIn r = ⟨r.kind, r.owner, s.name, s.descriptor⟩ := by
  cases hfind : d.memberRefs.find? (fun s => joined s = joined r) with
  | none =>
      have hne := List.find?_eq_none.mp hfind r hr
      simp at hne
  | some s =>
      refine ⟨s, List.mem_of_find?_eq_some hfind, rfl, ?_, ?_⟩
      · simpa using List.find?_some hfind
      · rw [standIn, hfind]

/-- Where joined signatures tell their parts apart, references are only lost, never changed. -/
theorem membersRead_of_signatures (h : ∀ r ∈ d.memberRefs, ∀ s ∈ d.memberRefs, joined r = joined s →
      r.name = s.name ∧ r.descriptor = s.descriptor) :
    d.membersRead = distinctBy (fun r => (Entry.member r).label) d.memberRefs := by
  have hstandIn : ∀ r ∈ d.memberRefs, d.standIn r = r := by
    intro r hr
    obtain ⟨s, hs, _, hjoined, hstandIn⟩ := exists_standIn hr
    obtain ⟨hname, hdescriptor⟩ := h s hs r hr hjoined
    rw [hstandIn, hname, hdescriptor]
  have hmap : (distinctBy (fun r => (Entry.member r).label) d.memberRefs).map d.standIn =
      distinctBy (fun r => (Entry.member r).label) d.memberRefs := by
    rw [List.map_congr_left fun r hr => hstandIn r (mem_of_mem_distinctBy hr), List.map_id']
  rw [membersRead, hmap]
  exact distinct_of_nodup (nodup_distinctBy _ _)

theorem membersRead_of_unambiguous (h : d.Unambiguous) :
    d.membersRead = distinct d.memberRefs := by
  rw [membersRead_of_signatures h.signatures, distinct_eq_distinctBy]
  apply distinctBy_congr
  intro r hr s hs
  exact ⟨h.references r hr s hs, fun heq => by rw [show r = s from heq]⟩

theorem unambiguous_of_membersRead (h : d.membersRead = distinct d.memberRefs) : d.Unambiguous := by
  -- every reference comes back, and what comes back has the first signature of its joined text
  have hfirst : ∀ r ∈ d.memberRefs, ∃ s,
      d.memberRefs.find? (fun s => joined s = joined r) = some s ∧
        r.name = s.name ∧ r.descriptor = s.descriptor := by
    intro r hr
    rw [← mem_distinct, ← h, membersRead, mem_distinct] at hr
    obtain ⟨r', hr', rfl⟩ := List.mem_map.mp hr
    obtain ⟨s, _, hfind, hjoined, hstandIn⟩ := exists_standIn (mem_of_mem_distinctBy hr')
    rw [hstandIn]
    exact ⟨s, by rw [← hfind, ← hjoined]; rfl, rfl, rfl⟩
  have hsignatures : ∀ r ∈ d.memberRefs, ∀ s ∈ d.memberRefs, joined r = joined s →
      r.name = s.name ∧ r.descriptor = s.descriptor := by
    intro r hr s hs hjoined
    obtain ⟨f, hf, hname, hdescriptor⟩ := hfirst r hr
    obtain ⟨f', hf', hname', hdescriptor'⟩ := hfirst s hs
    rw [hjoined, hf'] at hf
    cases hf
    exact ⟨hname.trans hname'.symm, hdescriptor.trans hdescriptor'.symm⟩
  refine ⟨hsignatures, ?_⟩
  rw [membersRead_of_signatures hsignatures] at h
  -- so each of two references with one label is the first of that label
  have hlabel : ∀ r ∈ d.memberRefs,
      d.memberRefs.find? (fun s => (Entry.member s).label = (Entry.member r).label) = some r := by
    intro r hr
    apply mem_distinctBy.mp
    rw [h]
    exact mem_distinct.mpr hr
  intro r hr s hs heq
  have hr' := hlabel r hr
  rw [heq, hlabel s hs] at hr'
  exact (Option.some.inj hr').symm

/-! ## Texts without colons -/

/-- What stands before the first colon and what stands after it. -/
theorem append_colon_inj {xs ys xs' ys' : List Char} (hxs : ':' ∉ xs) (hxs' : ':' ∉ xs')
    (h : xs ++ ':' :: ys = xs' ++ ':' :: ys') : xs = xs' ∧ ys = ys' := by
  induction xs generalizing xs' with
  | nil =>
      cases xs' with
      | nil => exact ⟨rfl, (List.cons.inj h).2⟩
      | cons x rest =>
          obtain ⟨rfl, _⟩ := List.cons.inj h
          exact absurd List.mem_cons_self hxs'
  | cons x rest ih =>
      cases xs' with
      | nil =>
          obtain ⟨rfl, _⟩ := List.cons.inj h
          exact absurd List.mem_cons_self hxs
      | cons x' rest' =>
          obtain ⟨hfirst, hrest⟩ := List.cons.inj h
          obtain ⟨hbefore, hafter⟩ := ih (fun hx => hxs (List.mem_cons_of_mem _ hx))
            (fun hx => hxs' (List.mem_cons_of_mem _ hx)) hrest
          exact ⟨by rw [hfirst, hbefore], hafter⟩

theorem join_inj {a b a' b' : String} (ha : ':' ∉ a.toList) (ha' : ':' ∉ a'.toList)
    (h : a ++ ":" ++ b = a' ++ ":" ++ b') : a = a' ∧ b = b' := by
  have hlists := congrArg String.toList h
  simp only [String.toList_append, List.append_assoc] at hlists
  obtain ⟨hbefore, hafter⟩ := append_colon_inj ha ha' hlists
  exact ⟨String.toList_inj.mp hbefore, String.toList_inj.mp hafter⟩

theorem memberTag_inj {kind kind' : MemberKind}
    (h : Writing.memberTag kind = Writing.memberTag kind') : kind = kind' := by
  cases kind <;> cases kind' <;> first | rfl | cases h

theorem label_text (r : MemberRef) :
    r.owner ++ ":" ++ r.name ++ ":" ++ r.descriptor = r.owner ++ ":" ++ joined r := by
  simp [joined, String.append_assoc]

/-- Colons in descriptors do no harm. -/
theorem unambiguous_of_noColon
    (h : ∀ r ∈ d.memberRefs, ':' ∉ r.owner.toList ∧ ':' ∉ r.name.toList) : d.Unambiguous := by
  constructor
  · intro r hr s hs hjoined
    exact join_inj (h r hr).2 (h s hs).2 hjoined
  · intro r hr s hs hlabel
    injection hlabel with htag hjoined
    rw [label_text, label_text] at hjoined
    obtain ⟨howner, hsignature⟩ := join_inj (h r hr).1 (h s hs).1 hjoined
    obtain ⟨hname, hdescriptor⟩ := join_inj (h r hr).2 (h s hs).2 hsignature
    cases r
    cases s
    cases memberTag_inj htag
    simp_all

end Draft

/-- The members that are read back, and when they are those that were given. -/
theorem read_build_memberRefs (d : Draft) (h : d.WithinLimits) :
    ∃ c, read d.build = .ok c ∧ c.memberRefs = d.membersRead ∧
      (c.memberRefs = distinct d.memberRefs ↔ d.Unambiguous) := by
  refine ⟨d.readBack ⟨d.classesRead, d.membersRead⟩, h.reads_back, rfl, ?_⟩
  constructor
  · exact Draft.unambiguous_of_membersRead
  · exact Draft.membersRead_of_unambiguous

/-- In the gallery every reference is found again. -/
theorem read_build_gallery_memberRefs :
    ∃ c, read gallery.build = .ok c ∧ c.memberRefs = gallery.memberRefs := by
  obtain ⟨c, hread, _, hiff⟩ := read_build_memberRefs gallery (by decide +kernel)
  refine ⟨c, hread, (hiff.mpr ?_).trans (by decide +kernel)⟩
  apply Draft.unambiguous_of_noColon
  decide +kernel

/-- Two methods of different classes, of which one has a colon in its name and the other one in the
name of its owner. -/
def colons : Draft where
  name := "p/A"
  access := 1
  memberRefs := [⟨.method, "o/O:a", "b", "()V"⟩, ⟨.method, "o/O", "a:b", "()V"⟩]

/-- The second method is lost. -/
theorem read_build_colons :
    colons.WithinLimits ∧ ∃ c, read colons.build = .ok c ∧
      c.memberRefs = [⟨.method, "o/O:a", "b", "()V"⟩] ∧
      c.memberRefs ≠ distinct colons.memberRefs := by
  have hlimits : colons.WithinLimits := by decide +kernel
  refine ⟨hlimits, _, hlimits.reads_back, ?_, ?_⟩
  · decide +kernel
  · decide +kernel

end Linkage.ClassFile
