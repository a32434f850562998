import RdStubs.FileTree

/-!
# Appending to files

`Receives` says that one tree is another after texts have been appended to files: nothing else has
changed, so what was in a file is still the beginning of it. Paths lead to the same locations in
both trees, since following a path only asks where directories stand and which names are taken.
-/

namespace RdStubs

namespace Entry

def append (bytes : ByteArray) : Entry → Entry
  | .file content => .file (content ++ bytes)
  | .directory => .directory

@[simp] theorem append_file (content bytes : ByteArray) :
    (file content).append bytes = file (content ++ bytes) := rfl

@[simp] theorem append_directory (bytes : ByteArray) : directory.append bytes = directory := rfl

@[simp] theorem isDirectory_append (bytes : ByteArray) (e : Entry) :
    (e.append bytes).isDirectory = e.isDirectory := by
  cases e <;> rfl

@[simp] theorem append_empty (e : Entry) : e.append .empty = e := by
  cases e <;> simp [append]

theorem append_append (e : Entry) (bytes more : ByteArray) :
    (e.append bytes).append more = e.append (bytes ++ more) := by
  cases e <;> simp [append, ByteArray.append_assoc]

end Entry

namespace FileTree

@[simp] theorem encode_nil : encode [] = .empty := by simp [encode]

theorem encode_append (s more : Text) : encode (s ++ more) = encode s ++ encode more := by
  simp [encode]

@[simp] theorem decode_encode (s : Text) : decode (encode s) = .ok s := by
  have hvalid : String.fromUTF8? (encode s) = some (String.ofList s) := by
    unfold String.fromUTF8?
    exact dif_pos (String.ofList s).isValidUTF8
  simp [decode, hvalid]

theorem encode_of_decode {content : ByteArray} {s : Text} (h : decode content = .ok s) :
    content = encode s := by
  unfold decode at h
  split at h
  · next str hvalid =>
    cases h
    unfold String.fromUTF8? at hvalid
    split at hvalid
    · cases hvalid
      rw [encode, String.ofList_toList]
      rfl
    · cases hvalid
  · cases h

theorem lookup_map_value {α β γ : Type} [BEq α] [LawfulBEq α] (f : α → β → γ) (k : α)
    (entries : List (α × β)) :
    (entries.map fun e => (e.1, f e.1 e.2)).lookup k = (entries.lookup k).map (f k) := by
  induction entries with
  | nil => rfl
  | cons e entries ih =>
    obtain ⟨m, b⟩ := e
    by_cases h : k = m
    · simp [h]
    · have hne : (k == m) = false := beq_false_of_ne h
      simp [List.lookup_cons, hne, ih]

theorem entry?_appendAt (t : FileTree) (l m : Location) (bytes : ByteArray) :
    FileTree.entry? (t.appendAt l bytes) m =
      (t.entry? m).map fun e => if m = l then e.append bytes else e := by
  have hentries : (t.appendAt l bytes).entries =
      t.entries.map fun e => (e.1, if e.1 = l then e.2.append bytes else e.2) := by
    refine List.map_congr_left fun e _ => ?_
    obtain ⟨m, content | _⟩ := e
    · by_cases h : m = l <;> simp [h]
    · simp
  by_cases hm : m = []
  · unfold entry?
    rw [if_pos hm, if_pos hm, Option.map_some]
    split <;> rfl
  · unfold entry?
    rw [if_neg hm, if_neg hm, hentries]
    exact lookup_map_value (fun m e => if m = l then e.append bytes else e) m t.entries

/-- The same names are taken in both trees, by directories in both or by files in both. -/
structure SameShape (t t' : FileTree) : Prop where
  workDir : t'.workDir = t.workDir
  isDirectory : ∀ l, (t'.entry? l).map Entry.isDirectory = (t.entry? l).map Entry.isDirectory

namespace SameShape

variable {t t' : FileTree}

theorem isDirectoryAt (h : SameShape t t') (l : Location) :
    t'.isDirectoryAt l = t.isDirectoryAt l := by
  have hl := h.isDirectory l
  unfold FileTree.isDirectoryAt
  cases ht : t.entry? l <;> cases ht' : t'.entry? l <;> simp_all

theorem isNone (h : SameShape t t') (l : Location) :
    (t'.entry? l).isNone = (t.entry? l).isNone := by
  have hl := congrArg Option.isNone (h.isDirectory l)
  simpa using hl

theorem locate (h : SameShape t t') (p : Path) : t'.locate p = t.locate p := by
  have hstep : t'.step = t.step := by
    funext here segment
    simp only [FileTree.step, h.isDirectoryAt, h.isNone]
  simp only [FileTree.locate, hstep, h.workDir]

theorem find?_isDirectory (h : SameShape t t') (p : Path) :
    (t'.find? p).map Entry.isDirectory = (t.find? p).map Entry.isDirectory := by
  unfold FileTree.find?
  rw [h.locate]
  cases (t.locate p).toOption with
  | none => rfl
  | some l => exact h.isDirectory l

theorem isFile (h : SameShape t t') (p : Path) : t'.isFile p = t.isFile p := by
  have hp := congrArg (Option.any (!·)) (h.find?_isDirectory p)
  rw [Option.any_map, Option.any_map] at hp
  exact hp

theorem isDirectory_path (h : SameShape t t') (p : Path) : t'.isDirectory p = t.isDirectory p := by
  have hp := congrArg (Option.any id) (h.find?_isDirectory p)
  simpa [FileTree.isDirectory, Option.any_map] using hp

theorem exists? (h : SameShape t t') (p : Path) : t'.exists? p = t.exists? p := by
  have hp := congrArg Option.isSome (h.find?_isDirectory p)
  simpa [FileTree.exists?] using hp

end SameShape

/-- The second tree is the first after `texts l` has been appended to the file at `l`, for every
`l`. -/
structure Receives (t : FileTree) (texts : Location → Text) (t' : FileTree) : Prop where
  workDir : t'.workDir = t.workDir
  entry? : ∀ l, t'.entry? l = (t.entry? l).map (Entry.append (encode (texts l)))

namespace Receives

variable {t t' t'' : FileTree} {texts more : Location → Text}

theorem nothing (t : FileTree) : t.Receives (fun _ => []) t where
  workDir := rfl
  entry? l := by
    cases t.entry? l <;> simp

theorem trans (h : t.Receives texts t') (h' : t'.Receives more t'') :
    t.Receives (fun l => texts l ++ more l) t'' where
  workDir := h'.workDir.trans h.workDir
  entry? l := by
    rw [h'.entry?, h.entry?, Option.map_map]
    congr 1
    funext e
    rw [Function.comp_apply, Entry.append_append, encode_append]

theorem sameShape (h : t.Receives texts t') : SameShape t t' where
  workDir := h.workDir
  isDirectory l := by
    rw [h.entry?, Option.map_map]
    congr 1
    funext e
    exact Entry.isDirectory_append _ e

/-- A file that has received nothing is read as before. -/
theorem readText (h : t.Receives texts t') {p : Path}
    (hnothing : ∀ l, t.locate p = .ok l → texts l = []) : t'.readText p = t.readText p := by
  unfold FileTree.readText
  rw [h.sameShape.locate]
  cases hlocate : t.locate p with
  | error cause => rfl
  | ok l =>
    have hentry : t'.entry? l = t.entry? l := by
      rw [h.entry?, hnothing l hlocate]
      cases t.entry? l <;> simp
    have hcontent : t'.contentAt l = t.contentAt l := by
      unfold contentAt
      rw [hentry]
    exact congrArg (· >>= decode) hcontent

end Receives

theorem receives_appendAt (t : FileTree) (l : Location) (s : Text) :
    t.Receives (fun m => if m = l then s else []) (t.appendAt l (encode s)) where
  workDir := rfl
  entry? m := by
    rw [entry?_appendAt]
    by_cases h : m = l
    · simp [h]
    · cases t.entry? m <;> simp [h]

theorem isFile_iff {t : FileTree} {p : Path} :
    t.isFile p = true ↔ ∃ l content, t.locate p = .ok l ∧ t.entry? l = some (.file content) := by
  unfold isFile find?
  cases t.locate p with
  | error cause => simp [Except.toOption]
  | ok l =>
    rcases hentry : t.entry? l with _ | content | _ <;>
      simp [Except.toOption, hentry, Entry.isFile, Entry.isDirectory]

theorem isDirectory_iff {t : FileTree} {p : Path} :
    t.isDirectory p = true ↔ ∃ l, t.locate p = .ok l ∧ t.entry? l = some .directory := by
  unfold isDirectory find?
  cases t.locate p with
  | error cause => simp [Except.toOption]
  | ok l =>
    rcases hentry : t.entry? l with _ | content | _ <;>
      simp [Except.toOption, hentry, Entry.isDirectory]

theorem exists?_iff {t : FileTree} {p : Path} :
    t.exists? p = true ↔ t.isFile p = true ∨ t.isDirectory p = true := by
  unfold exists? isFile isDirectory
  rcases t.find? p with _ | content | _ <;> simp [Entry.isFile, Entry.isDirectory]

theorem locate_of_exists? {t : FileTree} {p : Path} (h : t.exists? p = true) :
    ∃ l, t.locate p = .ok l := by
  unfold exists? find? at h
  cases hlocate : t.locate p with
  | error cause => simp [hlocate, Except.toOption] at h
  | ok l => exact ⟨l, rfl⟩

theorem bind_eq_ok_iff {α β : Type} {x : Except FileError α} {f : α → Except FileError β} {b : β} :
    x >>= f = .ok b ↔ ∃ a, x = .ok a ∧ f a = .ok b := by
  cases x <;> simp [bind, Except.bind]

theorem contentAt_eq_ok_iff {t : FileTree} {l : Location} {content : ByteArray} :
    t.contentAt l = .ok content ↔ t.entry? l = some (.file content) := by
  unfold contentAt
  rcases t.entry? l with _ | content | _ <;> simp

theorem readText_of_file {t : FileTree} {p : Path} {l : Location} {text : Text}
    (hlocate : t.locate p = .ok l) (hentry : t.entry? l = some (.file (encode text))) :
    t.readText p = .ok text := by
  simp [readText, contentAt, hlocate, hentry, bind, Except.bind]

theorem readText_eq_ok_iff {t : FileTree} {p : Path} {text : Text} :
    t.readText p = .ok text ↔
      ∃ l, t.locate p = .ok l ∧ t.entry? l = some (.file (encode text)) := by
  constructor
  · intro h
    obtain ⟨l, hlocate, hread⟩ := bind_eq_ok_iff.1 h
    obtain ⟨content, hcontent, hdecode⟩ := bind_eq_ok_iff.1 hread
    rw [← encode_of_decode hdecode]
    exact ⟨l, hlocate, contentAt_eq_ok_iff.1 hcontent⟩
  · rintro ⟨l, hlocate, hentry⟩
    exact readText_of_file hlocate hentry

theorem append_eq_ok {t : FileTree} {p : Path} {l : Location} {content : ByteArray}
    (hlocate : t.locate p = .ok l) (hentry : t.entry? l = some (.file content)) (s : Text) :
    t.append p s = .ok (t.appendAt l (encode s)) := by
  simp [append, contentAt, hlocate, hentry, bind, Except.bind, pure, Except.pure]

/-- A text that has received another is read with it behind. -/
theorem Receives.readText_append {t t' : FileTree} {texts : Location → Text} {p : Path}
    {l : Location} {old : Text} (h : t.Receives texts t') (hlocate : t.locate p = .ok l)
    (hold : t.readText p = .ok old) : t'.readText p = .ok (old ++ texts l) := by
  obtain ⟨m, hm, hentry⟩ := readText_eq_ok_iff.1 hold
  obtain rfl : m = l := Except.ok.inj (hm.symm.trans hlocate)
  refine readText_of_file ((h.sameShape.locate p).trans hlocate) ?_
  rw [h.entry?, hentry, Option.map_some, Entry.append_file, encode_append]

theorem isFile_of_append {t t' : FileTree} {p : Path} {s : Text} (h : t.append p s = .ok t') :
    t.isFile p = true := by
  obtain ⟨l, hlocate, happend⟩ := bind_eq_ok_iff.1 h
  obtain ⟨content, hcontent, -⟩ := bind_eq_ok_iff.1 happend
  exact isFile_iff.2 ⟨l, content, hlocate, contentAt_eq_ok_iff.1 hcontent⟩

theorem append_eq_error {t : FileTree} {p : Path} (h : t.isDirectory p = true) (s : Text) :
    t.append p s = .error .isADirectory := by
  obtain ⟨l, hlocate, hentry⟩ := isDirectory_iff.1 h
  simp [append, contentAt, hlocate, hentry, bind, Except.bind]

end FileTree

end RdStubs
