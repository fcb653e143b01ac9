import ScriptDoc.File.Tree

/-! Writing a file. The temporary file that carries the text has a name of its own, so that it is in
nobody's way; when all is done, either the file at the path holds the text and nothing else has
changed, or nothing has changed at all. -/
namespace ScriptDoc

theorem bindOk {action : Except ε α} {next : α → Except ε β} {result : β}
    (done : action >>= next = .ok result) :
    ∃ value, action = .ok value ∧ next value = .ok result := by
  cases action with
  | error e => cases done
  | ok value => exact ⟨value, rfl, done⟩

namespace Tree

theorem findFiltered {place other : List Text} (different : other ≠ place)
    (entries : List (List Text × Node)) :
    (entries.filter fun entry => entry.1 ≠ place).find? (fun entry => entry.1 = other) =
      entries.find? fun entry => entry.1 = other := by
  induction entries with
  | nil => rfl
  | cons entry rest ih =>
    by_cases here : entry.1 = other
    · have kept : entry.1 ≠ place := by simpa [here] using different
      rw [List.filter_cons_of_pos (by simpa using kept),
        List.find?_cons_of_pos (by simpa using here), List.find?_cons_of_pos (by simpa using here)]
    · rw [List.find?_cons_of_neg (by simpa using here), ← ih]
      by_cases dropped : entry.1 = place
      · rw [List.filter_cons_of_neg (by simpa using dropped)]
      · rw [List.filter_cons_of_pos (by simpa using dropped),
          List.find?_cons_of_neg (by simpa using here)]

theorem findSet (entries : List (List Text × Node)) (place : List Text) (node : Node)
    (other : List Text) :
    findNode (entries.filter (fun entry => entry.1 ≠ place) ++ [(place, node)]) other =
      if other = place then some node else findNode entries other := by
  rw [findNode, findNode, List.find?_append]
  by_cases same : other = place
  · subst same
    have absent : (entries.filter fun entry => entry.1 ≠ other).find?
        (fun entry => entry.1 = other) = none := by
      rw [List.find?_eq_none]
      intro entry member
      simpa using (List.mem_filter.mp member).2
    rw [absent, if_pos rfl]
    simp
  · rw [findFiltered same, if_neg same]
    simp [Ne.symm same]

theorem directoryExact {node : Node} : node.isDirectory = true ↔ ∃ access, node = .directory access := by
  cases node <;> simp [Node.isDirectory]

theorem nestedExact {entries : List (List Text × Node)} : isNested entries = true ↔
    ∀ entry ∈ entries, ∀ count, 0 < count → count < entry.1.length →
      ∃ access, findNode entries (entry.1.take count) = some (.directory access) := by
  have above (place : List Text) : (findNode entries place).any Node.isDirectory = true ↔
      ∃ access, findNode entries place = some (.directory access) := by
    cases findNode entries place with
    | none => simp
    | some node => simp [directoryExact]
  simp only [isNested, List.all_eq_true, List.mem_range, Bool.or_eq_true, decide_eq_true_eq, above]
  refine forall₂_congr fun entry _ => forall_congr' fun count => ?_
  constructor
  · intro each positive inside
    exact (each inside).resolve_left (Nat.ne_of_gt positive)
  · intro each inside
    rcases Nat.eq_zero_or_pos count with zero | positive
    · exact Or.inl zero
    · exact Or.inr (each positive inside)

theorem findMember {entries : List (List Text × Node)} {place : List Text} {node : Node}
    (found : findNode entries place = some node) : (place, node) ∈ entries := by
  obtain ⟨entry, listed, rfl⟩ := Option.map_eq_some_iff.mp found
  have same : entry.1 = place := by simpa using List.find?_some listed
  exact same ▸ List.mem_of_find?_eq_some listed

theorem getBelow {place : List Text} (below : place ≠ []) (t : Tree) :
    t.get? place = findNode t.entries place := if_neg (by simpa using below)

theorem aboveNested (t : Tree) {place : List Text} {node : Node} (present : t.get? place = some node)
    {count : Nat} (inside : count < place.length) :
    ∃ access, t.get? (place.take count) = some (.directory access) := by
  have below : place ≠ [] := by
    rintro rfl
    contradiction
  rcases Nat.eq_zero_or_pos count with rfl | positive
  · exact ⟨t.root, rfl⟩
  · rw [getBelow below] at present
    have taken : place.take count ≠ [] := by
      simp [List.take_eq_nil_iff, below, Nat.ne_of_gt positive]
    rw [getBelow taken]
    exact nestedExact.mp t.nested _ (findMember present) count positive inside

structure Vacant (t : Tree) (place : List Text) : Prop where
  above : ∃ parent name access, place = parent ++ [name] ∧ t.get? parent = some (.directory access)
  free : ∀ access, t.get? place ≠ some (.directory access)

section Set
variable {t : Tree} {place : List Text}

theorem vacantBelow (vacant : t.Vacant place) : place ≠ [] := by
  obtain ⟨parent, name, _, rfl, _⟩ := vacant.above
  simp

theorem nestedSet (vacant : t.Vacant place) (node : Node) :
    isNested (t.entries.filter (fun entry => entry.1 ≠ place) ++ [(place, node)]) = true := by
  have below := vacantBelow vacant
  refine nestedExact.mpr fun entry member count positive inside => ?_
  -- The directories above an entry are where they were, since none of them was at the place.
  have kept {above : List Text} (filled : above ≠ []) {access : Access}
      (here : t.get? above = some (.directory access)) :
      findNode (t.entries.filter (fun entry => entry.1 ≠ place) ++ [(place, node)]) above =
        some (.directory access) := by
    have different : above ≠ place := by
      rintro rfl
      exact vacant.free access here
    rw [findSet, if_neg different, ← getBelow filled, here]
  have taken : entry.1.take count ≠ [] := by
    have filled : entry.1 ≠ [] := by
      intro nothing
      rw [nothing] at inside
      contradiction
    simp [List.take_eq_nil_iff, filled, Nat.ne_of_gt positive]
  rcases List.mem_append.mp member with before | new
  · have listed := (List.mem_filter.mp before).1
    obtain ⟨access, here⟩ := nestedExact.mp t.nested entry listed count positive inside
    exact ⟨access, kept taken (by rw [getBelow taken, here])⟩
  · cases List.mem_singleton.mp new
    obtain ⟨parent, name, access, rfl, here⟩ := vacant.above
    rw [List.length_append, List.length_singleton] at inside
    rw [List.take_append_of_le_length (Nat.le_of_lt_succ inside)] at taken ⊢
    rcases Nat.lt_or_ge count parent.length with early | late
    · obtain ⟨above, there⟩ := t.aboveNested here early
      exact ⟨above, kept taken there⟩
    · rw [List.take_of_length_le late] at taken ⊢
      exact ⟨access, kept taken here⟩

theorem setEntries (vacant : t.Vacant place) (node : Node) :
    t.set place node =
      { t with
        entries := t.entries.filter (fun entry => entry.1 ≠ place) ++ [(place, node)]
        nested := nestedSet vacant node } := dif_pos (nestedSet vacant node)

theorem getSet (vacant : t.Vacant place) (node : Node) (other : List Text) :
    (t.set place node).get? other = if other = place then some node else t.get? other := by
  have below := vacantBelow vacant
  rw [setEntries vacant]
  by_cases root : other = []
  · subst root
    rw [if_neg (Ne.symm below)]
    rfl
  · rw [getBelow root, getBelow root]
    exact findSet t.entries place node other

end Set

def Absent (t : Tree) (place : List Text) : Prop := ∀ entry ∈ t.entries, entry.1 ≠ place

theorem filterAbsent {t : Tree} {place : List Text} (absent : t.Absent place) :
    t.entries.filter (fun entry => entry.1 ≠ place) = t.entries :=
  List.filter_eq_self.mpr fun entry member => by simpa using absent entry member

theorem withEntriesOf {t u : Tree} {entries : List (List Text × Node)} (same : entries = t.entries)
    (root : u.root = t.root) : u.withEntries entries = t := by
  subst same
  obtain ⟨entries, access, nested⟩ := t
  cases root
  exact dif_pos nested

theorem eraseAbsent {t : Tree} {place : List Text} (absent : t.Absent place) :
    t.erase place = t := withEntriesOf (filterAbsent absent) rfl

theorem eraseSet {t : Tree} {place : List Text} (node : Node) (vacant : t.Vacant place)
    (absent : t.Absent place) : (t.set place node).erase place = t := by
  have entries : (t.entries.filter (fun entry => entry.1 ≠ place) ++ [(place, node)]).filter
      (fun entry => entry.1 ≠ place) = t.entries := by
    rw [filterAbsent absent, List.filter_append, filterAbsent absent]
    simp
  rw [setEntries vacant]
  exact withEntriesOf entries rfl

theorem freshAbsent (taken : List Text) : freshName taken ∉ taken := by
  intro member
  have short := (List.sublist_flatten_of_mem member).length_le
  have filled : 0 < temporaryName.length := by decide
  rw [freshName, List.length_append, List.length_replicate] at short
  omega

theorem entryExact {t : Tree} {place next : List Text} {part : Text} :
    t.entry place part = .ok next ↔ ∃ access, t.get? place = some (.directory access) ∧
      access.search = true ∧ byteLength part ≤ maxNameBytes ∧ next = Path.pushPart place part := by
  unfold entry
  split
  · rename_i access here
    by_cases searched : access.search = true
    · by_cases short : byteLength part ≤ maxNameBytes
      · rw [if_neg (by simp [searched]), if_neg (Nat.not_lt.mpr short)]
        constructor
        · rintro ⟨⟩
          exact ⟨access, here, searched, short, rfl⟩
        · rintro ⟨-, -, -, -, rfl⟩
          rfl
      · rw [if_neg (by simp [searched]), if_pos (Nat.lt_of_not_le short)]
        simp [short]
    · rw [if_pos (by simp [searched])]
      simp [here, searched]
  · rename_i other
    simp only [reduceCtorEq, false_iff, not_exists, not_and]
    intro access here
    exact absurd here (other access)

theorem entryFree {t : Tree} {place next : List Text} {name part : Text}
    (step : t.entry place part = .ok next) (other : name ∉ place) (unused : name ≠ part) :
    name ∉ next := by
  obtain ⟨-, -, -, -, rfl⟩ := entryExact.mp step
  rw [Path.pushPart]
  split
  · exact fun member => other (List.dropLast_subset _ member)
  · simp [other, unused]

theorem walkFree {t : Tree} {name : Text} {place parts last : List Text}
    (reached : t.walk place parts = .ok last) (other : name ∉ place) (unused : name ∉ parts) :
    name ∉ last := by
  induction parts generalizing place with
  | nil =>
    cases reached
    exact other
  | cons part rest ih =>
    rw [walk] at reached
    split at reached
    · contradiction
    · rename_i next step
      split at reached
      · exact ih reached (entryFree step other (List.ne_of_not_mem_cons unused))
          (List.not_mem_of_not_mem_cons unused)
      · contradiction

theorem absoluteParts {directory path : Path} {name : Text}
    (member : name ∈ (Path.absolute directory path).parts) :
    name ∈ directory.parts ++ path.parts := by
  unfold Path.absolute at member
  split at member
  · exact List.mem_append_right _ member
  · exact member

section Aside
variable {t : Tree} {name : Text} {aside : List Text} (node : Node) (vacant : t.Vacant aside)
  (named : name ∈ aside)
include vacant named

theorem getAside {place : List Text} (other : name ∉ place) :
    (t.set aside node).get? place = t.get? place := by
  have different : place ≠ aside := fun same => other (same ▸ named)
  rw [getSet vacant, if_neg different]

theorem entryAside {place : List Text} (part : Text) (other : name ∉ place) :
    (t.set aside node).entry place part = t.entry place part := by
  rw [entry, getAside node vacant named other]
  rfl

theorem walkAside {place parts : List Text} (other : name ∉ place) (unused : name ∉ parts) :
    (t.set aside node).walk place parts = t.walk place parts := by
  induction parts generalizing place with
  | nil => rfl
  | cons part rest ih =>
    simp only [walk, entryAside node vacant named part other]
    cases step : t.entry place part with
    | error fault => rfl
    | ok next =>
      have otherNext := entryFree step other (List.ne_of_not_mem_cons unused)
      simp only [getAside node vacant named otherNext,
        ih otherNext (List.not_mem_of_not_mem_cons unused)]

theorem mayWriteAside {place : List Text} (other : name ∉ place) :
    (t.set aside node).mayWrite place = t.mayWrite place := by
  rw [mayWrite, getAside node vacant named other]
  rfl

theorem newPlaceAside {directory path : Path} (unused : name ∉ directory.parts ++ path.parts) :
    (t.set aside node).newPlace directory path = t.newPlace directory path := by
  have unusedAbove : name ∉ (Path.absolute directory path).parts.dropLast := fun member =>
    unused (absoluteParts (List.dropLast_subset _ member))
  simp only [newPlace, walkAside node vacant named List.not_mem_nil unusedAbove]
  cases above : t.walk [] (Path.absolute directory path).parts.dropLast with
  | error fault => rfl
  | ok parent =>
    have otherParent := walkFree above List.not_mem_nil unusedAbove
    simp only [bind, Except.bind, entryAside node vacant named _ otherParent,
      mayWriteAside node vacant named otherParent]

end Aside

theorem newPlaceCases {t : Tree} {directory path : Path} {place : List Text}
    (found : t.newPlace directory path = .ok place) :
    isTooLong path.toText = false ∧
      ∃ parent name, t.walk [] (Path.absolute directory path).parts.dropLast = .ok parent ∧
        path.parts.getLast? = some name ∧ t.entry parent name = .ok place ∧
        place = parent ++ [name] := by
  unfold newPlace at found
  cases long : isTooLong path.toText with
  | true =>
    rw [long] at found
    contradiction
  | false =>
    rw [long] at found
    obtain ⟨parent, above, found⟩ := bindOk found
    split at found
    · contradiction
    · rename_i name isLast
      obtain ⟨next, step, found⟩ := bindOk found
      split at found
      · contradiction
      · rename_i plain
        split at found
        · cases found
          obtain ⟨-, -, -, -, pushed⟩ := entryExact.mp step
          rw [Path.pushPart, if_neg plain] at pushed
          exact ⟨rfl, parent, name, above, isLast, step, pushed⟩
        · contradiction

theorem newPlaceAbove {t : Tree} {directory path : Path} {place : List Text}
    (found : t.newPlace directory path = .ok place) :
    ∃ parent name access, place = parent ++ [name] ∧ t.get? parent = some (.directory access) := by
  obtain ⟨-, parent, name, -, -, step, rfl⟩ := newPlaceCases found
  obtain ⟨access, here, -⟩ := entryExact.mp step
  exact ⟨parent, name, access, rfl, here⟩

theorem newPlaceFree {t : Tree} {directory path : Path} {place : List Text} {name : Text}
    (found : t.newPlace directory path = .ok place)
    (unused : name ∉ directory.parts ++ path.parts) : name ∉ place := by
  obtain ⟨-, parent, last, above, isLast, step, -⟩ := newPlaceCases found
  have otherParent : name ∉ parent := walkFree above List.not_mem_nil fun member =>
    unused (absoluteParts (List.dropLast_subset _ member))
  refine entryFree step otherParent fun same => unused (List.mem_append_right _ ?_)
  rw [same]
  exact List.mem_of_getLast? isLast

theorem walkAppend (t : Tree) (place parts more : List Text) :
    t.walk place (parts ++ more) = t.walk place parts >>= fun last => t.walk last more := by
  induction parts generalizing place with
  | nil => rfl
  | cons part rest ih =>
    simp only [List.cons_append, walk]
    cases t.entry place part with
    | error fault => rfl
    | ok next =>
      by_cases present : (t.get? next).isSome
      · simpa [present] using ih next
      · simp [present, bind, Except.bind]

theorem absoluteLast {directory path : Path} {name : Text}
    (isLast : path.parts.getLast? = some name) :
    (Path.absolute directory path).parts =
      (Path.absolute directory path).parts.dropLast ++ [name] := by
  obtain ⟨above, parts⟩ := List.getLast?_eq_some_iff.mp isLast
  unfold Path.absolute
  split
  · rw [parts, List.dropLast_concat]
  · rw [parts, ← List.append_assoc, List.dropLast_concat]

section Filled
variable {t : Tree} {place : List Text} (node : Node) (vacant : t.Vacant place)
include vacant

theorem entryFilled {other next : List Text} {part : Text}
    (step : t.entry other part = .ok next) :
    (t.set place node).entry other part = .ok next := by
  -- A step leaves from a directory, and there was none at the place.
  obtain ⟨access, here, -⟩ := entryExact.mp step
  have different : other ≠ place := by
    rintro rfl
    exact vacant.free access here
  rw [← step, entry, getSet vacant, if_neg different]
  rfl

theorem walkFilled {start parts last : List Text} (reached : t.walk start parts = .ok last) :
    (t.set place node).walk start parts = .ok last := by
  induction parts generalizing start with
  | nil => exact reached
  | cons part rest ih =>
    rw [walk] at reached
    split at reached
    · contradiction
    · rename_i next step
      split at reached
      · rename_i present
        have stillPresent : ((t.set place node).get? next).isSome := by
          rw [getSet vacant]
          split
          · rfl
          · exact present
        simp only [walk, entryFilled node vacant step, stillPresent, if_true]
        exact ih reached
      · contradiction

theorem resolveFilled {directory path : Path} (found : t.newPlace directory path = .ok place) :
    (t.set place node).resolve directory path = .ok place := by
  obtain ⟨short, parent, name, above, isLast, step, -⟩ := newPlaceCases found
  have present : (t.set place node).get? place = some node := by
    rw [getSet vacant, if_pos rfl]
  rw [resolve, short, absoluteLast isLast, walkAppend, walkFilled node vacant above]
  simp [bind, Except.bind, walk, entryFilled node vacant step, present]

theorem bytesFilled {directory path : Path} (content : Bytes)
    (found : t.newPlace directory path = .ok place) :
    (t.set place (.file content)).bytes directory path = .ok content := by
  simp [bytes, Tree.node, resolveFilled _ vacant found, bind, Except.bind, getSet vacant,
    Node.contents, Node.access]

end Filled

theorem absentSet {t : Tree} {place other : List Text} (node : Node) (absent : t.Absent place)
    (vacant : t.Vacant other) (different : other ≠ place) : (t.set other node).Absent place := by
  rw [setEntries vacant]
  intro entry member
  rcases List.mem_append.mp member with before | new
  · exact absent entry (List.mem_filter.mp before).1
  · cases List.mem_singleton.mp new
    exact different

theorem absentUnnamed {t : Tree} {place : List Text} {name : Text} (named : name ∈ place)
    (unused : name ∉ t.names) : t.Absent place := by
  rintro entry member rfl
  exact unused (List.mem_flatMap.mpr ⟨entry, member, named⟩)

theorem vacantUnnamed {t : Tree} {parent : List Text} {name : Text} {access : Access}
    (here : t.get? parent = some (.directory access)) (unused : name ∉ t.names) :
    t.Vacant (parent ++ [name]) := by
  refine ⟨⟨parent, name, access, rfl, here⟩, fun other found => ?_⟩
  rw [getBelow (by simp)] at found
  exact absentUnnamed (by simp) unused _ (findMember found) rfl

theorem settleCases {t : Tree} {temporary : List Text} {name : Text} (content : Bytes)
    (shown directory path : Path) (vacant : t.Vacant temporary) (named : name ∈ temporary)
    (unnamed : name ∉ t.names) (unused : name ∉ directory.parts ++ path.parts) :
    (∃ e, (t.set temporary (.file content)).settle temporary shown directory path = ⟨t, some e⟩) ∨
      ∃ place, t.newPlace directory path = .ok place ∧ t.Vacant place ∧
        (t.set temporary (.file content)).settle temporary shown directory path =
          ⟨t.set place (.file content), none⟩ := by
  have absent := absentUnnamed named unnamed
  have erased := eraseSet (.file content) vacant absent
  have present : (t.set temporary (.file content)).get? temporary = some (.file content) := by
    rw [getSet vacant, if_pos rfl]
  rw [settle, erased]
  split
  · exact Or.inl ⟨_, rfl⟩
  -- The path is looked up as if the temporary file were not there.
  rw [move, newPlaceAside _ vacant named unused]
  cases found : t.newPlace directory path with
  | error fault => exact Or.inl ⟨_, rfl⟩
  | ok place =>
    have free := newPlaceFree found unused
    have different : place ≠ temporary := by
      rintro rfl
      exact free named
    simp only [bind, Except.bind, getAside _ vacant named free, present, erased]
    by_cases occupied : ∃ access, t.get? place = some (.directory access)
    · obtain ⟨access, here⟩ := occupied
      rw [here]
      exact Or.inl ⟨_, rfl⟩
    · rw [not_exists] at occupied
      have room : t.Vacant place := ⟨newPlaceAbove found, occupied⟩
      refine Or.inr ⟨place, rfl, room, ?_⟩
      simp [eraseAbsent (absentSet (.file content) absent room different)]

theorem outputCases (t : Tree) (directory path : Path) (content : Text) :
    (∃ e, t.output directory path content = ⟨t, some e⟩) ∨
      ∃ place, t.newPlace directory path = .ok place ∧ t.Vacant place ∧
        t.output directory path content =
          ⟨t.set place (.file (Utf8.encode content)), none⟩ := by
  have fresh := freshAbsent (t.names ++ directory.parts ++ path.parts)
  rw [List.append_assoc, List.mem_append, not_or, ← List.append_assoc] at fresh
  simp only [output]
  split
  · exact Or.inl ⟨_, rfl⟩
  split
  · exact Or.inl ⟨_, rfl⟩
  · rename_i found
    obtain ⟨parent, name, access, rfl, here⟩ := newPlaceAbove found
    rw [List.dropLast_concat]
    exact settleCases _ _ _ _ (vacantUnnamed here fresh.1) (by simp) fresh.1 fresh.2

end Tree
end ScriptDoc
