import ServiceSchema.Program.Files
import Mathlib.Data.List.Basic
/-!
# Places and what they hold

A path leads to a place by a walk through directories.  Looking for a file that is not there fails
in one of three ways, none of which occurs for a file that is there.  Writing to a file changes what
its place holds and nothing else: the places on the way to it were directories before, so that every
walk that was possible still is.
-/

namespace ServiceSchema

/-- A fault of looking for something that is not there, or cannot be. -/
def FileFault.MeansAbsent (f : FileFault) : Prop :=
  f = .notFound ∨ f = .notDirectory ∨ f = .nameTooLong

namespace FileTree

variable {t t' : FileTree} {place directory start : List String} {path content : String}
  {fault : FileFault}

/-! ## Walks -/

theorem isBelow_iff : isBelow directory place = true ↔ directory <+: place ∧ directory ≠ place := by
  rw [isBelow, Bool.and_eq_true, List.isPrefixOf_iff_prefix, bne_iff_ne]

/-- A step leaves a directory, to stay there, to go up or to go down. -/
theorem step_eq_ok {s : String} (h : t.step directory s = .ok place) :
    t.node? directory = some .directory ∧
      (place = directory ∨ place = directory.dropLast ∨ place = directory ++ [s]) := by
  unfold step at h
  split at h
  · cases h
  · next hdirectory =>
      refine ⟨hdirectory, ?_⟩
      split_ifs at h
      · exact .inl (Except.ok.inj h).symm
      · exact .inr (.inl (Except.ok.inj h).symm)
      · exact .inr (.inr (Except.ok.inj h).symm)
  · cases h

theorem meansAbsent_of_step {s : String} (h : t.step directory s = .error fault) :
    fault.MeansAbsent := by
  unfold step at h
  split at h
  · exact .inl (Except.error.inj h).symm
  · split_ifs at h
    exact .inr (.inr (Except.error.inj h).symm)
  · exact .inr (.inl (Except.error.inj h).symm)

theorem walk_cons (s : String) (steps : List String) :
    t.walk start (s :: steps) = (t.step start s).bind (t.walk · steps) := rfl

theorem meansAbsent_of_walk {steps : List String} (h : t.walk start steps = .error fault) :
    fault.MeansAbsent := by
  induction steps generalizing start with
  | nil => cases h
  | cons s steps ih =>
      rw [walk_cons] at h
      cases hstep : t.step start s with
      | error f =>
          rw [hstep] at h
          have hfault : f = fault := Except.error.inj h
          exact hfault ▸ meansAbsent_of_step hstep
      | ok next =>
          rw [hstep] at h
          exact ih h

/-- A path that leads nowhere means that nothing is there. -/
theorem meansAbsent_of_place (h : t.place path = .error fault) : fault.MeansAbsent := by
  unfold place follow at h
  split at h
  · exact .inr (.inr (Except.error.inj h).symm)
  · exact meansAbsent_of_walk h

/-- Something is on every place on the way to this one. -/
def Grounded (t : FileTree) (place : List String) : Prop :=
  ∀ directory, isBelow directory place = true → t.node? directory ≠ none

theorem grounded_nil : t.Grounded [] := by
  intro directory hbelow
  obtain ⟨hpath, hne⟩ := isBelow_iff.mp hbelow
  exact absurd (List.prefix_nil.mp hpath) hne

theorem grounded_workingDirectory : t.Grounded t.workingDirectory := by
  intro directory hbelow
  have hpath : directory.isPrefixOf t.workingDirectory = true :=
    List.isPrefixOf_iff_prefix.mpr (isBelow_iff.mp hbelow).1
  unfold node?
  rw [hpath, Bool.true_or, if_pos rfl]
  split <;> exact Option.some_ne_none _

theorem Grounded.dropLast (h : t.Grounded place) : t.Grounded place.dropLast := by
  intro directory hbelow
  obtain ⟨hpath, hne⟩ := isBelow_iff.mp hbelow
  have hplace : directory <+: place := hpath.trans (List.dropLast_prefix place)
  refine h directory (isBelow_iff.mpr ⟨hplace, ?_⟩)
  rintro rfl
  exact hne (hpath.eq_of_length_le (List.dropLast_prefix directory).length_le)

theorem Grounded.concat (h : t.Grounded place) (hplace : t.node? place ≠ none) (s : String) :
    t.Grounded (place ++ [s]) := by
  intro directory hbelow
  obtain ⟨hpath, hne⟩ := isBelow_iff.mp hbelow
  have hupper : directory <+: place := (List.prefix_concat_iff.mp hpath).resolve_left hne
  by_cases heq : directory = place
  · exact heq ▸ hplace
  · exact h directory (isBelow_iff.mpr ⟨hupper, heq⟩)

theorem Grounded.step {s : String} (h : t.Grounded directory)
    (hstep : t.step directory s = .ok place) : t.Grounded place := by
  obtain ⟨hdirectory, rfl | rfl | rfl⟩ := step_eq_ok hstep
  · exact h
  · exact h.dropLast
  · exact h.concat (by rw [hdirectory]; exact Option.some_ne_none _) s

theorem Grounded.walk {steps : List String} (h : t.Grounded start)
    (hwalk : t.walk start steps = .ok place) : t.Grounded place := by
  induction steps generalizing start with
  | nil => exact Except.ok.inj hwalk ▸ h
  | cons s steps ih =>
      rw [walk_cons] at hwalk
      cases hstep : t.step start s with
      | error f => rw [hstep] at hwalk; cases hwalk
      | ok next =>
          rw [hstep] at hwalk
          exact ih (h.step hstep) hwalk

theorem grounded_of_place (h : t.place path = .ok place) : t.Grounded place := by
  unfold FileTree.place follow at h
  split at h
  · cases h
  · have hstart : t.Grounded (if Path.isAbsolute path then [] else t.workingDirectory) := by
      split
      · exact grounded_nil
      · exact grounded_workingDirectory
    exact hstart.walk h

/-- A walk is possible where all directories of another tree are directories. -/
theorem walk_of_directories {steps : List String}
    (hkept : ∀ q, t.node? q = some .directory → t'.node? q = some .directory)
    (h : t.walk start steps = .ok place) : t'.walk start steps = .ok place := by
  induction steps generalizing start with
  | nil => exact h
  | cons s steps ih =>
      rw [walk_cons] at h ⊢
      cases hstep : t.step start s with
      | error f => rw [hstep] at h; cases h
      | ok next =>
          -- A step only looks at the place that it leaves.
          have hdirectory : t.node? start = some .directory := (step_eq_ok hstep).1
          have hsame : t'.step start s = t.step start s := by
            unfold step
            rw [hdirectory, hkept start hdirectory]
          rw [hstep] at h
          rw [hsame, hstep]
          exact ih h

theorem place_of_directories (hroot : t'.workingDirectory = t.workingDirectory)
    (hkept : ∀ q, t.node? q = some .directory → t'.node? q = some .directory)
    (h : t.place path = .ok place) : t'.place path = .ok place := by
  unfold FileTree.place follow at h ⊢
  rw [hroot]
  split at h
  · cases h
  · next hlength =>
      rw [if_neg hlength]
      exact walk_of_directories hkept h

/-! ## Reading -/

/-- Something is where a path leads to; it is a directory if the path asks for one. -/
def Has (t : FileTree) (path : String) : Prop :=
  ∃ place node, t.place path = .ok place ∧ t.node? place = some node ∧
    (Path.namesDirectory path = true → node = .directory)

theorem read_of_place (h : t.place path = .ok place) :
    t.read path =
      match t.node? place with
      | none => .error .notFound
      | some .directory => .error .isDirectory
      | some (.text content) =>
        if Path.namesDirectory path then .error .notDirectory else .ok content
      | some .binary =>
        if Path.namesDirectory path then .error .notDirectory else .error .notText := by
  unfold read
  rw [h]
  rfl

/-- What is not there cannot be read, for a reason that says so. -/
theorem read_of_not_has (h : ¬t.Has path) :
    ∃ fault, t.read path = .error fault ∧ fault.MeansAbsent := by
  cases hplace : t.place path with
  | error fault =>
      refine ⟨fault, ?_, meansAbsent_of_place hplace⟩
      unfold read
      rw [hplace]
      rfl
  | ok place =>
      rw [read_of_place hplace]
      cases hnode : t.node? place with
      | none => exact ⟨.notFound, rfl, .inl rfl⟩
      | some node =>
          have hasked : Path.namesDirectory path = true ∧ node ≠ .directory := by
            by_contra hall
            exact h ⟨place, node, hplace, hnode, fun hd => by_contra fun hn => hall ⟨hd, hn⟩⟩
          refine ⟨.notDirectory, ?_, .inr (.inl rfl)⟩
          cases node with
          | directory => exact absurd rfl hasked.2
          | text c => exact if_pos hasked.1
          | binary => exact if_pos hasked.1

/-- What is there can be read, unless it is a directory or no text. -/
theorem not_meansAbsent_of_has (h : t.Has path) (hread : t.read path = .error fault) :
    ¬fault.MeansAbsent := by
  obtain ⟨place, node, hplace, hnode, hasked⟩ := h
  rw [read_of_place hplace, hnode] at hread
  have hfault : fault = .isDirectory ∨ fault = .notText := by
    cases node with
    | directory => exact .inl (Except.error.inj hread).symm
    | text c =>
        dsimp only at hread
        rw [if_neg fun hd => FileNode.noConfusion (hasked hd)] at hread
        cases hread
    | binary =>
        dsimp only at hread
        rw [if_neg fun hd => FileNode.noConfusion (hasked hd)] at hread
        exact .inr (Except.error.inj hread).symm
  rcases hfault with rfl | rfl <;> simp [FileFault.MeansAbsent]

/-! ## Writing -/

/-- Entries under other keys do not count for a look-up. -/
theorem lookup_filter_ne {q : List String} (hq : q ≠ place)
    (nodes : List (List String × FileNode)) :
    (nodes.filter (·.1 != place)).lookup q = nodes.lookup q := by
  induction nodes with
  | nil => rfl
  | cons e nodes ih =>
      by_cases hkey : e.1 = place
      · have hdropped : (e.1 != place) = false := by rw [hkey, bne_self_eq_false]
        have hother : (q == e.1) = false := beq_eq_false_iff_ne.mpr fun h => hq (h.trans hkey)
        rw [List.filter_cons, hdropped, if_neg Bool.false_ne_true, ih, List.lookup_cons, hother]
      · have hkept : (e.1 != place) = true := bne_iff_ne.mpr hkey
        rw [List.filter_cons, if_pos hkept, List.lookup_cons, List.lookup_cons, ih]

theorem node?_withText_self : (t.withText place content).node? place = some (.text content) := by
  unfold node? withText
  rw [List.lookup_cons, beq_self_eq_true]

theorem node?_of_lookup_eq_none {q : List String} (h : t.nodes.lookup q = none) :
    t.node? q = if q.isPrefixOf t.workingDirectory || t.nodes.any (fun e => isBelow q e.1)
      then some .directory else none := by
  unfold node?
  rw [h]

/-- A new content changes nothing elsewhere: the directories above it were there before. -/
theorem node?_withText_of_ne {q : List String} (hplace : t.Grounded place) (hq : q ≠ place) :
    (t.withText place content).node? q = t.node? q := by
  have hlookup : (t.withText place content).nodes.lookup q = t.nodes.lookup q := by
    unfold withText
    rw [List.lookup_cons, beq_eq_false_iff_ne.mpr hq]
    exact lookup_filter_ne hq t.nodes
  cases hnode : t.nodes.lookup q with
  | some node =>
      unfold node?
      rw [hlookup, hnode]
  | none =>
      rw [node?_of_lookup_eq_none (hlookup.trans hnode), node?_of_lookup_eq_none hnode]
      -- A place above the file is a directory now; it was one before, being on the way to it.
      by_cases hbelow : isBelow q place = true
      · have hbefore := hplace q hbelow
        rw [node?_of_lookup_eq_none hnode] at hbefore
        have hnew : (t.withText place content).nodes.any (fun e => isBelow q e.1) = true :=
          List.any_eq_true.mpr ⟨(place, .text content), List.mem_cons_self, hbelow⟩
        rw [if_pos (ite_ne_right_iff.mp hbefore).1, hnew, Bool.or_true, if_pos rfl]
      · have hsame : (t.withText place content).nodes.any (fun e => isBelow q e.1) =
            t.nodes.any (fun e => isBelow q e.1) := by
          unfold withText
          rw [List.any_cons, Bool.eq_false_iff.mpr hbelow, Bool.false_or, List.any_filter]
          congr 1
          funext e
          by_cases hkey : e.1 = place
          · rw [hkey, Bool.eq_false_iff.mpr hbelow, Bool.and_false]
          · rw [bne_iff_ne.mpr hkey, Bool.true_and]
        rw [hsame]
        rfl

theorem write_of_place (hasked : Path.namesDirectory path = false)
    (h : t.place path = .ok place) :
    t.write path content =
      if t.node? place = some .directory then .error .isDirectory
      else .ok (t.withText place content) := by
  unfold write
  rw [hasked, h]
  dsimp only [bind, Except.bind]
  rw [if_neg Bool.false_ne_true]
  split
  · next hdirectory => rw [if_pos hdirectory]
  · next hother => rw [if_neg hother]

/-- Whether a file can be written does not depend on what is written. -/
theorem write_eq_error (h : t.write path content = .error fault) (other : String) :
    t.write path other = .error fault := by
  cases hasked : Path.namesDirectory path with
  | true =>
      unfold write at h ⊢
      rw [hasked] at h ⊢
      exact h
  | false =>
      cases hplace : t.place path with
      | error f =>
          unfold write at h ⊢
          rw [hasked, hplace] at h ⊢
          exact h
      | ok place =>
          rw [write_of_place hasked hplace] at h ⊢
          split_ifs at h ⊢
          exact h

theorem write_eq_ok (h : t.write path content = .ok t') :
    ∃ place, t.place path = .ok place ∧ t.node? place ≠ some .directory ∧
      Path.namesDirectory path = false ∧ t' = t.withText place content := by
  cases hasked : Path.namesDirectory path with
  | true =>
      unfold write at h
      rw [hasked] at h
      cases hparent : t.parent path <;> rw [hparent] at h <;> cases h
  | false =>
      cases hplace : t.place path with
      | error f =>
          unfold write at h
          rw [hasked, hplace] at h
          cases h
      | ok place =>
          rw [write_of_place hasked hplace] at h
          split_ifs at h with hdirectory
          exact ⟨place, rfl, hdirectory, rfl, (Except.ok.inj h).symm⟩

/-- After a write the file has the new content, and every other place holds what it held. -/
theorem write_spec (h : t.write path content = .ok t') :
    t'.read path = .ok content ∧ t'.workingDirectory = t.workingDirectory ∧
      ∃ place, t.place path = .ok place ∧ ∀ q, q ≠ place → t'.node? q = t.node? q := by
  obtain ⟨place, hplace, hnode, hasked, rfl⟩ := write_eq_ok h
  have hother : ∀ q, q ≠ place → (t.withText place content).node? q = t.node? q :=
    fun q hq => node?_withText_of_ne (grounded_of_place hplace) hq
  have hkept : ∀ q, t.node? q = some .directory →
      (t.withText place content).node? q = some .directory := by
    intro q hq
    rw [hother q fun heq => hnode (heq ▸ hq), hq]
  have hplace' : (t.withText place content).place path = .ok place :=
    place_of_directories (t := t) rfl hkept hplace
  refine ⟨?_, rfl, place, hplace, hother⟩
  rw [read_of_place hplace', node?_withText_self]
  exact if_neg (by rw [hasked]; exact Bool.false_ne_true)

end FileTree

end ServiceSchema
