import Linkage.Proofs.Check.Conversation
import Linkage.Proofs.Rule.ReferencedClasses
import Linkage.Rule.Members

/-!
# The classes that a descriptor names

The scan for class names does not follow the grammar of descriptors: it looks for the next `L` and then for
the next `;`. On what the grammar gives it is never out of step, since no code of one letter is an `L` and
no name holds a `;`. Names may hold an `L` or a bracket of their own.

* **`Description`** — the types of a field or of a method, with the text and the names of classes in it;
* **`classes_text`** — the scan of the text gives the names, each once, in order of first occurrence;
* **`Resolves`** — a check tries to resolve some names at a location and does nothing else;
* **`DescriptorLaws`**, **`descriptorLaws`** — so do the rules on the types of methods and fields, for the
  names in the descriptor.
-/

namespace Linkage

namespace Descriptor

/-! ## Descriptions -/

/-- The types that are written with one letter; `void` is that of no value. -/
inductive SimpleType where
  | byte
  | char
  | double
  | float
  | int
  | long
  | short
  | boolean
  | void
  deriving DecidableEq, Repr

def SimpleType.code : SimpleType → Char
  | .byte => 'B'
  | .char => 'C'
  | .double => 'D'
  | .float => 'F'
  | .int => 'I'
  | .long => 'J'
  | .short => 'S'
  | .boolean => 'Z'
  | .void => 'V'

/-- A name that can stand between `L` and `;`. -/
structure ObjectName where
  text : String
  nonempty : text ≠ ""
  noEnd : ';' ∉ text.toList
  noArray : '[' ∉ text.toList

/-- A type. -/
inductive DescribedType where
  | simple (type : SimpleType)
  | object (name : ObjectName)
  | array (element : DescribedType)

namespace DescribedType

/-- The type as it is written. -/
def written : DescribedType → List Char
  | simple type => [type.code]
  | object name => 'L' :: (name.text.toList ++ [';'])
  | array element => '[' :: element.written

/-- The classes in the type. -/
def objects : DescribedType → List ObjectName
  | simple _ => []
  | object name => [name]
  | array element => element.objects

end DescribedType

/-- The type of a field, or those of the parameters and of the result of a method. -/
inductive Description where
  | field (type : DescribedType)
  | method (parameters : List DescribedType) (result : DescribedType)

namespace Description

/-- The description as it is written. -/
def written : Description → List Char
  | field type => type.written
  | method parameters result => '(' :: (parameters.flatMap (·.written) ++ ')' :: result.written)

/-- The descriptor. -/
def text (d : Description) : String := String.ofList d.written

/-- The classes in the description, in the order in which they come. -/
def objects : Description → List ObjectName
  | field type => type.objects
  | method parameters result => parameters.flatMap (·.objects) ++ result.objects

/-- Their names. -/
def names (d : Description) : List String := d.objects.map (·.text)

end Description

/-! ## The scan of a description -/

section Scan

variable {found : List String} {rest : List Char}

/-- A character that opens no name is passed over. -/
theorem scan_skip {c : Char} (h : c ≠ 'L') : scan .outside found (c :: rest) = scan .outside found rest := by
  rw [scan, if_neg h]

theorem code_ne (type : SimpleType) : type.code ≠ 'L' := by
  cases type <;> decide

/-- Inside a name the scan reads on to its end. -/
theorem scan_inside {name : List Char} (h : ';' ∉ name) (read : List Char) :
    scan (.inside read) found (name ++ ';' :: rest) =
      scan (.inside (name.reverse ++ read)) found (';' :: rest) := by
  induction name generalizing read with
  | nil => rfl
  | cons c name ih =>
      obtain ⟨hc, hname⟩ := not_or.mp (List.mem_cons.not.mp h)
      rw [List.cons_append, scan, if_neg (Ne.symm hc), ih hname]
      simp

/-- A name is added to those found, and the scan is outside of names again. -/
theorem scan_object (name : ObjectName) :
    scan .outside found ('L' :: (name.text.toList ++ ';' :: rest)) =
      scan .outside (insertNew found name.text) rest := by
  have hnonempty : (name.text.toList.reverse ++ []).isEmpty = false := by
    simp [name.nonempty]
  rw [scan, if_pos rfl, scan_inside name.noEnd, scan, if_pos rfl, hnonempty]
  simp

/-- The scan of a type finds its classes, whatever was found before and whatever comes after it. -/
theorem scan_type (type : DescribedType) (found : List String) (rest : List Char) :
    scan .outside found (type.written ++ rest) =
      scan .outside ((type.objects.map (·.text)).foldl insertNew found) rest := by
  induction type with
  | simple type => exact scan_skip (code_ne type)
  | object name =>
      have hwritten : (DescribedType.object name).written ++ rest =
          'L' :: (name.text.toList ++ ';' :: rest) := by
        simp [DescribedType.written]
      rw [hwritten, scan_object]
      rfl
  | array element ih => exact (scan_skip (by decide)).trans ih

theorem scan_types (types : List DescribedType) (found : List String) (rest : List Char) :
    scan .outside found (types.flatMap (·.written) ++ rest) =
      scan .outside (((types.flatMap (·.objects)).map (·.text)).foldl insertNew found) rest := by
  induction types generalizing found with
  | nil => rfl
  | cons type types ih =>
      rw [List.flatMap_cons, List.append_assoc, scan_type, ih, List.flatMap_cons, List.map_append,
        List.foldl_append]

end Scan

/-- The classes found in a descriptor are those that its description names, each once, in the order in which
they first come. -/
theorem classes_text (d : Description) : classes d.text = distinct d.names := by
  unfold classes Description.text distinct
  rw [String.toList_ofList]
  cases d with
  | field type =>
      have hscan := scan_type type [] []
      rw [List.append_nil] at hscan
      exact hscan
  | method parameters result =>
      have hresult := scan_type result (((parameters.flatMap (·.objects)).map (·.text)).foldl insertNew []) []
      rw [List.append_nil] at hresult
      show scan .outside [] ('(' :: _) = scan .outside _ []
      rw [scan_skip (by decide), scan_types, scan_skip (by decide), hresult, ← List.foldl_append,
        ← List.map_append]
      rfl

/-- Names that hold an `L` and brackets of their own, one of them twice. -/
example : classes (Description.text (.method
    [.array (.array (.object ⟨"LL(L)", by decide, by decide, by decide⟩)), .simple .long,
      .object ⟨"p/Lamp", by decide, by decide, by decide⟩]
    (.object ⟨"LL(L)", by decide, by decide, by decide⟩))) = ["LL(L)", "p/Lamp"] := by
  decide

end Descriptor

/-! ## Names that are resolved -/

/-- A check tries to resolve the names at the location, one after the other, and does nothing else. -/
structure Resolves (env : Setting) (location : Location) (names : List String) (check : Check Unit) :
    Prop where
  /-- To a session it is as many calls as there are names. -/
  calls : ∀ s, (check s).2 = (conversation env (names.map (.resolveAt location)) s).2
  /-- Unless the class path fails, it is asked for the names that the session did not know, and for no
  others. -/
  asks : ∀ s, (check s).2.failure = none →
    (check s).2.known.keys = s.known.keys ++ names.filter (· ∉ s.known.keys)
  /-- Where it does not fail, the names that stand for no class are reported, and nothing else. -/
  reports : ∀ s, env.classpath.Reliable → Faithful env s → ∀ p, p ∈ (check s).2.problems ↔
    p ∈ s.problems ∨ ∃ name ∈ names, env.classpath.definition? name = none ∧
      env.external.covers name = false ∧ p = .classNotFound name location
  /-- There are no new warnings. -/
  quiet : ∀ s, (check s).2.warnings = s.warnings

section Resolves

variable {env : Setting} {location : Location} {names : List String} {s : Session} {name : String}

/-- The check that resolves names at a location. -/
def resolvedAll (env : Setting) (location : Location) (names : List String) : Check Unit :=
  Check.each names fun name => discard (resolveAt env location name)

theorem run_resolvedAll_cons (name : String) (names : List String) (s : Session) :
    (resolvedAll env location (name :: names) s).2 =
      (resolvedAll env location names (resolveAt env location name s).2).2 := rfl

theorem resolvedAll_calls (names : List String) (s : Session) :
    (resolvedAll env location names s).2 =
      (conversation env (names.map (.resolveAt location)) s).2 := by
  induction names generalizing s with
  | nil => rfl
  | cons name names ih =>
      rw [run_resolvedAll_cons, ih]
      rfl

/-- What one call leaves: the findings apart, what the look-up leaves. -/
theorem resolveAt_known (env : Setting) (location : Location)
    (hplain : ClassName.element? name = some name) (s : Session) :
    (resolveAt env location name s).2.known = (s.lookup env name).2.known ∧
      (resolveAt env location name s).2.failure = (s.lookup env name).2.failure ∧
      (resolveAt env location name s).2.warnings = (s.lookup env name).2.warnings := by
  rw [resolveAt_plain location hplain]
  cases (s.lookup env name).1 with
  | some c => exact ⟨rfl, rfl, rfl⟩
  | none =>
      simp only [missed_eq]
      split <;> exact ⟨rfl, rfl, rfl⟩

/-- A look-up that does not fail asks for the name if that is new. -/
theorem keys_lookup (h : (s.lookup env name).2.failure = none) :
    (s.lookup env name).2.known.keys =
      s.known.keys ++ if name ∈ s.known.keys then [] else [name] := by
  have hlooked := looksUp_lookup env s name
  generalize s.lookup env name = answered at hlooked h ⊢
  obtain ⟨found, s'⟩ := answered
  cases hlooked with
  | remembered hknown =>
      have hmem : name ∈ s'.known.keys := List.mem_map_of_mem (f := Prod.fst) (Table.mem_of_get? hknown)
      rw [if_pos hmem, List.append_nil]
  | givenUp hnew hfailure => exact nomatch hfailure.symm.trans h
  | answered hnew hfailure hfind =>
      rw [if_neg (Table.get?_eq_none_iff.mp hnew)]
      unfold Table.keys
      rw [Table.entries_put_of_new hnew, List.map_append]
      rfl
  | failed hnew hfailure hfind => cases h

theorem warnings_lookup (env : Setting) (s : Session) (name : String) :
    (s.lookup env name).2.warnings = s.warnings := by
  have hlooked := looksUp_lookup env s name
  generalize s.lookup env name = answered at hlooked ⊢
  obtain ⟨found, s'⟩ := answered
  cases hlooked <;> rfl

theorem resolvedAll_asks (hplain : ∀ name ∈ names, ClassName.element? name = some name)
    (hdistinct : names.Nodup) (h : (resolvedAll env location names s).2.failure = none) :
    (resolvedAll env location names s).2.known.keys =
      s.known.keys ++ names.filter (· ∉ s.known.keys) := by
  induction names generalizing s with
  | nil => exact (List.append_nil _).symm
  | cons name names ih =>
      obtain ⟨hfirst, hdistinct⟩ := List.nodup_cons.mp hdistinct
      obtain ⟨hname, hplain⟩ := List.forall_mem_cons.mp hplain
      rw [run_resolvedAll_cons] at h ⊢
      have hunfailed : (resolveAt env location name s).2.failure = none :=
        (Regular.each fun _ => .discard (.resolveAt _ _)).extends.unfailed h
      obtain ⟨hknown, hfailure, -⟩ := resolveAt_known env location hname s
      have hkeys := keys_lookup (hfailure.symm.trans hunfailed)
      -- the later names are new after the first one if they were new before it
      have hlater : names.filter (· ∉ (s.lookup env name).2.known.keys) =
          names.filter (· ∉ s.known.keys) := by
        refine List.filter_congr fun other hother => ?_
        have hne : other ≠ name := fun heq => hfirst (heq ▸ hother)
        rw [hkeys]
        split <;> simp [hne]
      rw [ih hplain hdistinct h, hknown, hlater, hkeys, List.filter_cons]
      split <;> simp_all

theorem resolvedAll_reports (hplain : ∀ name ∈ names, ClassName.element? name = some name)
    (hpath : env.classpath.Reliable) (hs : Faithful env s) (p : Problem) :
    p ∈ (resolvedAll env location names s).2.problems ↔
      p ∈ s.problems ∨ ∃ name ∈ names, env.classpath.definition? name = none ∧
        env.external.covers name = false ∧ p = .classNotFound name location := by
  unfold resolvedAll
  rw [(Regular.finds_each hpath (fun _ => .discard (.resolveAt _ _)) hs).1]
  refine or_congr_right (exists_congr fun name => and_congr_right fun hname => ?_)
  obtain ⟨s', hrun, -, hproblems, -⟩ := (faithful_start env).resolveAt hpath location name
  show p ∈ (resolveAt env location name (Session.start env)).2.problems ↔ _
  rw [hrun, hproblems]
  simp [Session.start, Misses, hplain name hname]

theorem resolvedAll_quiet (hplain : ∀ name ∈ names, ClassName.element? name = some name) (s : Session) :
    (resolvedAll env location names s).2.warnings = s.warnings := by
  induction names generalizing s with
  | nil => rfl
  | cons name names ih =>
      obtain ⟨hname, hplain⟩ := List.forall_mem_cons.mp hplain
      rw [run_resolvedAll_cons, ih hplain, (resolveAt_known env location hname s).2.2, warnings_lookup]

theorem resolves_resolvedAll (hplain : ∀ name ∈ names, ClassName.element? name = some name)
    (hdistinct : names.Nodup) : Resolves env location names (resolvedAll env location names) where
  calls := resolvedAll_calls names
  asks _ h := resolvedAll_asks hplain hdistinct h
  reports _ hpath hs p := resolvedAll_reports hplain hpath hs p
  quiet := resolvedAll_quiet hplain

end Resolves

/-! ## Rules on described types -/

/-- The name of a class in a descriptor is not that of an array. -/
theorem Descriptor.ObjectName.element?_text (name : ObjectName) :
    ClassName.element? name.text = some name.text := by
  refine element?_eq_some_iff.mpr (Or.inl ⟨?_, rfl⟩)
  intro hhead
  exact name.noArray (List.mem_of_head? hhead)

/-- What holds of the descriptor of a description. -/
structure DescriptorLaws (d : Descriptor.Description) : Prop where
  /-- The classes found in it are those that the description names, in the order in which they first
  come, -/
  classes : Descriptor.classes d.text = distinct d.names
  /-- each once -/
  nodup : (Descriptor.classes d.text).Nodup
  /-- and none left out. -/
  mem_iff : ∀ name, name ∈ Descriptor.classes d.text ↔ name ∈ d.names
  /-- They are what is tried to resolve of the types of a method with the descriptor, -/
  ofMethod : ∀ env c m, m.descriptor = d.text →
    Resolves env (.inMethod (.ofMember c m)) (distinct d.names) (Rules.methodTypesResolve env c m)
  /-- and of the type of a field. -/
  ofField : ∀ env c f, f.descriptor = d.text →
    Resolves env (.inField (.ofMember c f)) (distinct d.names) (Rules.fieldTypeResolves env c f)

/-- Whatever a field or a method is described by, the classes named in it are found, and the rules on types
try to resolve these and no others. -/
theorem descriptorLaws (d : Descriptor.Description) : DescriptorLaws d := by
  have hclasses := Descriptor.classes_text d
  have hdistinct := nodup_distinct d.names
  have hplain : ∀ name ∈ distinct d.names, ClassName.element? name = some name := by
    intro name hname
    obtain ⟨object, -, rfl⟩ := List.mem_map.mp (mem_distinct.mp hname)
    exact object.element?_text
  refine ⟨hclasses, ?_, ?_, ?_, ?_⟩
  · rw [hclasses]
    exact hdistinct
  · intro name
    rw [hclasses]
    exact mem_distinct
  · intro env c m hm
    unfold Rules.methodTypesResolve
    rw [hm, hclasses]
    exact resolves_resolvedAll hplain hdistinct
  · intro env c f hf
    unfold Rules.fieldTypeResolves
    rw [hf, hclasses]
    exact resolves_resolvedAll hplain hdistinct

end Linkage
