import PiSecure.General.Decimal
import PiSecure.General.Scan
import PiSecure.Model.BlockFiles
import PiSecure.Theory.Frames

/-! # Block files across a restart

What the appends leave in the block files, and what a scan of them finds. The
writer numbers files without a bound, while the scanner knows the names with
five digits only, so the store opened again is the store that was closed as long
as at most 100000 files are in use.
-/

namespace PiSecure

/-! ## Names -/

theorem ofDigitChars_padded (number : Nat) : Nat.ofDigitChars 10 (padded number) 0 = number := by
  rw [padded, Nat.ofDigitChars_append, Nat.ofDigitChars_replicate_zero, Nat.mul_zero,
    Json.decimal, Nat.ofDigitChars_toDigits (by decide) (by decide)]

theorem length_decimal_le_iff (number : Nat) :
    (Json.decimal number).length ≤ 5 ↔ number < 100000 :=
  Nat.length_toDigits_le_iff (by decide) (by decide)

theorem length_padded {number : Nat} (small : number < 100000) : (padded number).length = 5 := by
  have short := (length_decimal_le_iff number).mpr small
  rw [padded, List.length_append, List.length_replicate]
  omega

theorem length_padded_of_large {number : Nat} (large : 100000 ≤ number) :
    5 < (padded number).length := by
  have long : ¬(Json.decimal number).length ≤ 5 := by
    rw [length_decimal_le_iff]
    omega
  rw [padded, List.length_append]
  omega

theorem isDigit_of_mem_padded {number : Nat} {c : Char} (member : c ∈ padded number) :
    c.isDigit = true := by
  obtain zero | digit := List.mem_append.mp member
  · rw [List.eq_of_mem_replicate zero]
    rfl
  · exact Nat.isDigit_of_mem_toDigits (by decide) (by decide) digit

theorem fileName_eq (number : Nat) :
    fileName number = 'b' :: 'l' :: 'k' :: (padded number ++ ".dat".toList) := rfl

theorem fileName_injective : Function.Injective fileName := by
  intro first second same
  rw [fileName_eq, fileName_eq] at same
  have digits := List.append_cancel_right
    (List.cons.inj (List.cons.inj (List.cons.inj same).2).2).2
  rw [← ofDigitChars_padded first, digits, ofDigitChars_padded]

theorem isBlockFile_fileName {number : Nat} (small : number < 100000) :
    isBlockFile (fileName number) = true := by
  have length := length_padded small
  have digits : ((fileName number).drop 3).take 5 = padded number := by
    rw [fileName_eq]
    exact List.take_left' length
  have ending : (fileName number).drop 8 = ".dat".toList := by
    rw [fileName_eq]
    exact List.drop_left' length
  have size : (fileName number).length = 12 := by
    rw [fileName_eq, List.length_cons, List.length_cons, List.length_cons, List.length_append,
      length]
    rfl
  have front : (fileName number).take 3 = "blk".toList := rfl
  simp only [isBlockFile, digits, front, ending, size, BEq.rfl, Bool.true_and, List.all_eq_true]
  exact fun _ member => isDigit_of_mem_padded member

theorem isBlockFile_fileName_of_large {number : Nat} (large : 100000 ≤ number) :
    isBlockFile (fileName number) = false := by
  have long := length_padded_of_large large
  have size : (fileName number).length ≠ 12 := by
    rw [fileName_eq, List.length_cons, List.length_cons, List.length_cons, List.length_append]
    have ending : ".dat".toList.length = 4 := rfl
    omega
  simp only [isBlockFile, beq_false_of_ne size, Bool.false_and]

theorem fileNumber_fileName {number : Nat} (small : number < 100000) :
    fileNumber (fileName number) = number := by
  have digits : ((fileName number).drop 3).take 5 = padded number := by
    rw [fileName_eq]
    exact List.take_left' (length_padded small)
  rw [fileNumber, digits, ofDigitChars_padded]

/-- The names of the files are in the order of their numbers. -/
theorem fileName_le {first second : Nat} (order : first ≤ second) (small : second < 100000) :
    fileName first ≤ fileName second := by
  refine not_lt.mp ?_
  intro (before : fileName second < fileName first)
  rw [fileName_eq, fileName_eq, List.cons_lt_cons_self, List.cons_lt_cons_self,
    List.cons_lt_cons_self] at before
  have lengths : (padded second).length = (padded first).length := by
    rw [length_padded small, length_padded (by omega)]
  have smaller := ofDigitChars_lt_of_lt lengths (fun _ => isDigit_of_mem_padded)
    (fun _ => isDigit_of_mem_padded) before
  rw [ofDigitChars_padded, ofDigitChars_padded] at smaller
  omega

/-! ## Directories -/

/-- The directory of files with these contents, numbered from the first. -/
def directoryFrom : Nat → List Bytes → Directory
  | _, [] => []
  | first, bytes :: rest => (fileName first, bytes) :: directoryFrom (first + 1) rest

/-- What scanning these files finds. -/
def scanFrom : Nat → List Bytes → List BlockPos
  | _, [] => []
  | first, bytes :: rest => scanFile first bytes bytes.length 0 ++ scanFrom (first + 1) rest

theorem directoryFrom_append (first : Nat) (front back : List Bytes) :
    directoryFrom first (front ++ back) =
      directoryFrom first front ++ directoryFrom (first + front.length) back := by
  induction front generalizing first with
  | nil => rfl
  | cons bytes front ih =>
      have next : first + 1 + front.length = first + (bytes :: front).length := by
        rw [List.length_cons]
        omega
      rw [List.cons_append, directoryFrom, directoryFrom, ih, next, List.cons_append]

theorem name_of_mem_directoryFrom {first : Nat} {contents : List Bytes} {entry : Text × Bytes}
    (member : entry ∈ directoryFrom first contents) :
    ∃ place < contents.length, entry.1 = fileName (first + place) := by
  induction contents generalizing first with
  | nil => cases member
  | cons bytes contents ih =>
      obtain rfl | later := List.mem_cons.mp member
      · exact ⟨0, Nat.succ_pos _, rfl⟩
      · obtain ⟨place, inside, name⟩ := ih later
        refine ⟨place + 1, Nat.succ_lt_succ inside, ?_⟩
        rw [name, Nat.add_assoc, Nat.add_comm 1]

theorem contents_directoryFrom (first place : Nat) (contents : List Bytes) :
    (directoryFrom first contents).contents (fileName (first + place)) = contents[place]? := by
  induction contents generalizing first place with
  | nil => rfl
  | cons bytes contents ih =>
      rw [directoryFrom, Directory.contents, List.lookup_cons]
      cases place with
      | zero => simp
      | succ place =>
          have other : fileName (first + (place + 1)) ≠ fileName first := by
            intro same
            have numbers := fileName_injective same
            omega
          have next : first + (place + 1) = first + 1 + place := by omega
          rw [beq_false_of_ne other, next]
          exact ih (first + 1) place

theorem append_new (first : Nat) (contents : List Bytes) (bytes : Bytes) :
    (directoryFrom first contents).append (fileName (first + contents.length)) bytes =
      directoryFrom first (contents ++ [bytes]) := by
  have absent : ¬((directoryFrom first contents).any
      fun entry => entry.1 == fileName (first + contents.length)) = true := by
    intro present
    obtain ⟨entry, member, same⟩ := List.any_eq_true.mp present
    obtain ⟨place, inside, name⟩ := name_of_mem_directoryFrom member
    have numbers := fileName_injective (name.symm.trans (eq_of_beq same))
    omega
  rw [Directory.append, if_neg absent, directoryFrom_append]
  rfl

theorem append_last (first : Nat) (front : List Bytes) (last bytes : Bytes) :
    (directoryFrom first (front ++ [last])).append (fileName (first + front.length)) bytes =
      directoryFrom first (front ++ [last ++ bytes]) := by
  have present : ((directoryFrom first (front ++ [last])).any
      fun entry => entry.1 == fileName (first + front.length)) = true := by
    refine List.any_eq_true.mpr ⟨(fileName (first + front.length), last), ?_, BEq.rfl⟩
    rw [directoryFrom_append]
    exact List.mem_append_right _ List.mem_cons_self
  have others : (directoryFrom first front).map (fun entry =>
      if entry.1 = fileName (first + front.length) then
        (fileName (first + front.length), entry.2 ++ bytes) else entry) =
      directoryFrom first front := by
    refine (List.map_congr_left ?_).trans (List.map_id _)
    intro entry member
    obtain ⟨place, inside, name⟩ := name_of_mem_directoryFrom member
    refine if_neg ?_
    intro same
    have numbers := fileName_injective (name.symm.trans same)
    omega
  rw [Directory.append, if_pos present, directoryFrom_append, directoryFrom_append,
    List.map_append, others]
  simp [directoryFrom]

/-! ## Opening a directory -/

theorem filter_directoryFrom (first : Nat) (contents : List Bytes) :
    (directoryFrom first contents).filter (fun entry => isBlockFile entry.1) =
      directoryFrom first (contents.take (100000 - first)) := by
  induction contents generalizing first with
  | nil => rw [List.take_nil]; rfl
  | cons bytes contents ih =>
      by_cases small : first < 100000
      · have left : 100000 - first = 100000 - (first + 1) + 1 := by omega
        rw [left, List.take_succ_cons]
        simp only [directoryFrom, List.filter_cons, isBlockFile_fileName small, ↓reduceIte, ih]
      · have left : 100000 - first = 0 := by omega
        have after : 100000 - (first + 1) = 0 := by omega
        have unknown := isBlockFile_fileName_of_large (Nat.le_of_not_lt small)
        rw [left, List.take_zero]
        simp only [directoryFrom, List.filter_cons, unknown, Bool.false_eq_true, ↓reduceIte, ih,
          after, List.take_zero]

theorem pairwise_directoryFrom {first : Nat} {contents : List Bytes}
    (few : first + contents.length ≤ 100000) :
    (directoryFrom first contents).Pairwise fun one other => one.1 ≤ other.1 := by
  induction contents generalizing first with
  | nil => exact List.Pairwise.nil
  | cons bytes contents ih =>
      rw [List.length_cons] at few
      refine List.Pairwise.cons ?_ (ih (by omega))
      intro entry member
      obtain ⟨place, inside, name⟩ := name_of_mem_directoryFrom member
      rw [name]
      exact fileName_le (by omega) (by omega)

/-- The scanner knows the first 100000 files. -/
theorem blockFiles_directoryFrom (contents : List Bytes) :
    blockFiles (directoryFrom 0 contents) = directoryFrom 0 (contents.take 100000) := by
  have few : 0 + (contents.take 100000).length ≤ 100000 := by
    rw [List.length_take]
    omega
  rw [blockFiles, filter_directoryFrom]
  exact List.Pairwise.insertionSort_eq (pairwise_directoryFrom few)

theorem scanFrom_eq {first : Nat} {contents : List Bytes}
    (few : first + contents.length ≤ 100000) :
    (directoryFrom first contents).flatMap
        (fun entry => scanFile (fileNumber entry.1) entry.2 entry.2.length 0) =
      scanFrom first contents := by
  induction contents generalizing first with
  | nil => rfl
  | cons bytes contents ih =>
      rw [List.length_cons] at few
      have number : fileNumber (fileName first) = first := fileNumber_fileName (by omega)
      rw [directoryFrom, List.flatMap_cons, ih (by omega), number]
      rfl

theorem scanExisting_index (contents : List Bytes) :
    (scanExisting (directoryFrom 0 contents)).index = scanFrom 0 (contents.take 100000) ∧
      (scanExisting (directoryFrom 0 contents)).nextIndex =
        (scanFrom 0 (contents.take 100000)).length := by
  have few : 0 + (contents.take 100000).length ≤ 100000 := by
    rw [List.length_take]
    omega
  rw [scanExisting, blockFiles_directoryFrom, scanFrom_eq few]
  cases (directoryFrom 0 (contents.take 100000)).getLast? with
  | none => exact ⟨rfl, rfl⟩
  | some last => exact ⟨rfl, rfl⟩

/-- A store opened on files that the scanner knows goes on at the end of the last. -/
theorem scanExisting_directoryFrom {front : List Bytes} (few : front.length < 100000)
    (last : Bytes) :
    scanExisting (directoryFrom 0 (front ++ [last])) =
      ⟨directoryFrom 0 (front ++ [last]), scanFrom 0 (front ++ [last]), front.length,
        last.length, (scanFrom 0 (front ++ [last])).length⟩ := by
  have size : (front ++ [last]).length = front.length + 1 := List.length_append
  have all : (front ++ [last]).take 100000 = front ++ [last] := List.take_of_length_le (by omega)
  have ended : (directoryFrom 0 (front ++ [last])).getLast? =
      some (fileName front.length, last) := by
    rw [directoryFrom_append, Nat.zero_add]
    exact List.getLast?_concat
  rw [scanExisting, blockFiles_directoryFrom, all, scanFrom_eq (by omega), ended]
  simp only [fileNumber_fileName few]

/-! ## Frames in a file -/

/-- A payload whose frame the scanner takes: it begins with a brace, and its
length is a word. -/
structure Good (payload : Bytes) : Prop where
  brace : payload.head? = some 123
  word : payload.length < 2 ^ 32

theorem Good.length_pos {payload : Bytes} (good : Good payload) : 0 < payload.length := by
  have brace := good.brace
  cases payload with
  | nil => cases brace
  | cons byte rest => exact Nat.succ_pos _

/-- Where the scanner goes from an offset. -/
def resume (bytes : Bytes) (offset : Nat) : Nat :=
  match frameAt bytes offset with
  | some len => offset + 4 + len
  | none => offset + 1

theorem resume_forward (bytes : Bytes) (offset : Nat) : offset < resume bytes offset := by
  unfold resume
  split
  · omega
  · omega

theorem frameAt_le {bytes : Bytes} {offset len : Nat} (found : frameAt bytes offset = some len) :
    0 < len ∧ offset + 4 + len ≤ bytes.length ∧ len < 2 ^ 32 := by
  have bound := readLe_lt (field bytes offset 4)
  have short : (field bytes offset 4).length ≤ 4 := List.length_take_le _ _
  have word : 256 ^ (field bytes offset 4).length ≤ 256 ^ 4 :=
    Nat.pow_le_pow_right (by decide) short
  rw [frameAt] at found
  split at found
  next fits =>
    cases found
    exact ⟨fits.1, fits.2.1, Nat.lt_of_lt_of_le bound word⟩
  · cases found

theorem field_middle (front middle back : Bytes) :
    field (front ++ (middle ++ back)) front.length middle.length = middle := by
  rw [field, List.drop_left, List.take_left]

/-- The length word in front of a payload. -/
theorem readLe_field (front payload rest : Bytes) :
    readLe (field (front ++ (BlockFiles.frame payload ++ rest)) front.length 4) =
      payload.length % 2 ^ 32 := by
  have read := field_middle front (u32Bytes payload.length) (payload ++ rest)
  rw [u32Bytes, length_leBytes, ← List.append_assoc (leBytes 4 payload.length)] at read
  have word : 256 ^ 4 = 2 ^ 32 := by decide
  rw [BlockFiles.frame, u32Bytes, read, readLe_leBytes, word]

theorem frameAt_frame {payload : Bytes} (good : Good payload) (front rest : Bytes) :
    frameAt (front ++ (BlockFiles.frame payload ++ rest)) front.length = some payload.length := by
  have len := readLe_field front payload rest
  rw [Nat.mod_eq_of_lt good.word] at len
  have size : (front ++ (BlockFiles.frame payload ++ rest)).length =
      front.length + (4 + payload.length + rest.length) := by
    rw [List.length_append, List.length_append, BlockFiles.frame, List.length_append, u32Bytes,
      length_leBytes]
  have brace : (front ++ (BlockFiles.frame payload ++ rest))[front.length + 4]? = some 123 := by
    have head := good.brace
    have behind : (BlockFiles.frame payload ++ rest)[4]? = (payload ++ rest)[0]? := by
      rw [BlockFiles.frame, List.append_assoc, List.getElem?_append_right]
      · rfl
      · exact Nat.le_refl 4
    rw [List.getElem?_append_right (Nat.le_add_right _ _), Nat.add_sub_cancel_left, behind]
    cases payload with
    | nil => cases head
    | cons byte payload => exact head
  rw [frameAt, len]
  exact if_pos ⟨good.length_pos, by omega, brace⟩

/-- The positions that a scan of a file finds. -/
theorem mem_scanFile {file fuel offset : Nat} {bytes : Bytes} {pos : BlockPos}
    (enough : bytes.length ≤ offset + fuel) :
    pos ∈ scanFile file bytes fuel offset ↔
      pos.file = file ∧ Visits (resume bytes) offset pos.offset ∧
        frameAt bytes pos.offset = some pos.size := by
  induction fuel generalizing offset with
  | zero =>
      constructor
      · intro member
        cases member
      · rintro ⟨_, visits, found⟩
        have later := visits.le (resume_forward bytes)
        have inside := frameAt_le found
        omega
  | succ fuel ih =>
      rw [scanFile]
      split
      next inside =>
        have step : Visits (resume bytes) (resume bytes offset) pos.offset →
            Visits (resume bytes) offset pos.offset := Visits.trans Visits.start.step
        cases found : frameAt bytes offset with
        | some len =>
            have next : resume bytes offset = offset + 4 + len := by rw [resume, found]
            rw [List.mem_cons, ih (by omega), ← next]
            constructor
            · rintro (rfl | ⟨same, visits, size⟩)
              · exact ⟨rfl, .start, found⟩
              · exact ⟨same, step visits, size⟩
            · rintro ⟨same, visits, size⟩
              obtain here | later := visits.cases_head
              · rw [here, found] at size
                left
                cases pos
                cases here
                cases same
                cases size
                rfl
              · exact .inr ⟨same, later, size⟩
        | none =>
            have next : resume bytes offset = offset + 1 := by rw [resume, found]
            rw [ih (by omega), ← next]
            constructor
            · rintro ⟨same, visits, size⟩
              exact ⟨same, step visits, size⟩
            · rintro ⟨same, visits, size⟩
              obtain here | later := visits.cases_head
              · rw [here, found] at size
                cases size
              · exact ⟨same, later, size⟩
      next outside =>
        constructor
        · intro member
          cases member
        · rintro ⟨_, visits, found⟩
          have later := visits.le (resume_forward bytes)
          have inside := frameAt_le found
          omega

/-- What `read_block` returns for a position at which a frame stands. -/
theorem readBlock_of_frame {store : BlockFiles} {place : Nat} {pos : BlockPos}
    {front payload rest : Bytes} (indexed : store.index[place]? = some pos)
    (contents : store.directory.contents (fileName pos.file) =
      some (front ++ (BlockFiles.frame payload ++ rest)))
    (offset : pos.offset = front.length) (size : pos.size = payload.length)
    (word : payload.length < 2 ^ 32) : store.readBlock place = some payload := by
  have len := readLe_field front payload rest
  rw [Nat.mod_eq_of_lt word] at len
  have total : (front ++ (BlockFiles.frame payload ++ rest)).length =
      front.length + (4 + payload.length + rest.length) := by
    rw [List.length_append, List.length_append, BlockFiles.frame, List.length_append, u32Bytes,
      length_leBytes]
  have body : field (front ++ (BlockFiles.frame payload ++ rest)) (front.length + 4)
      payload.length = payload := by
    have read := field_middle (front ++ u32Bytes payload.length) payload rest
    rwa [List.length_append, u32Bytes, length_leBytes, List.append_assoc,
      ← List.append_assoc (leBytes 4 payload.length)] at read
  simp only [BlockFiles.readBlock, indexed, contents, offset, size, len, body]
  rw [if_neg (by omega), if_neg (by omega)]

/-! ## What was written -/

/-- A part of a block file: a completed frame, or what is left of one. -/
inductive Segment where
  | frame (payload : Bytes)
  | torn (bytes : Bytes)

def Segment.bytes : Segment → Bytes
  | .frame payload => BlockFiles.frame payload
  | .torn bytes => bytes

/-- The bytes of a file. -/
def contentsOf (segments : List Segment) : Bytes := segments.flatMap Segment.bytes

/-- The completed frames of a file from an offset on, with their payloads. -/
def completedIn (file : Nat) : Nat → List Segment → List (BlockPos × Bytes)
  | _, [] => []
  | offset, .frame payload :: rest =>
      (⟨file, offset, payload.length⟩, payload) ::
        completedIn file (offset + (4 + payload.length)) rest
  | offset, .torn bytes :: rest => completedIn file (offset + bytes.length) rest

/-- The completed frames of files that are numbered from the first. -/
def completedFrom : Nat → List (List Segment) → List (BlockPos × Bytes)
  | _, [] => []
  | first, segments :: rest => completedIn first 0 segments ++ completedFrom (first + 1) rest

/-- The files that were written: the full ones and the last one. -/
structure Layout where
  full : List (List Segment)
  last : List Segment

namespace Layout

def files (layout : Layout) : List (List Segment) := layout.full ++ [layout.last]

def completed (layout : Layout) : List (BlockPos × Bytes) := completedFrom 0 layout.files

def directory (layout : Layout) : Directory := directoryFrom 0 (layout.files.map contentsOf)

/-- A segment goes to the last file when a frame of this size has room there. -/
def add (layout : Layout) (upcoming : Nat) (segment : Segment) : Layout :=
  if (contentsOf layout.last).length + upcoming ≤ kMaxBlockFileSize then
    { layout with last := layout.last ++ [segment] }
  else ⟨layout.files, [segment]⟩

end Layout

theorem length_files (layout : Layout) : layout.files.length = layout.full.length + 1 :=
  List.length_append

theorem length_frame (payload : Bytes) :
    (BlockFiles.frame payload).length = 4 + payload.length := by
  rw [BlockFiles.frame, List.length_append, u32Bytes, length_leBytes]

theorem contentsOf_append (front back : List Segment) :
    contentsOf (front ++ back) = contentsOf front ++ contentsOf back := List.flatMap_append

theorem contentsOf_singleton (segment : Segment) : contentsOf [segment] = segment.bytes :=
  List.flatMap_singleton _ _

theorem completedIn_append (file offset : Nat) (front back : List Segment) :
    completedIn file offset (front ++ back) =
      completedIn file offset front ++
        completedIn file (offset + (contentsOf front).length) back := by
  induction front generalizing offset with
  | nil => rfl
  | cons segment front ih =>
      have size : (contentsOf (segment :: front)).length =
          segment.bytes.length + (contentsOf front).length := List.length_append
      cases segment with
      | frame payload =>
          rw [Segment.bytes, length_frame] at size
          rw [List.cons_append, completedIn, completedIn, ih, size,
            Nat.add_assoc offset (4 + payload.length), List.cons_append]
      | torn bytes =>
          rw [Segment.bytes] at size
          rw [List.cons_append, completedIn, completedIn, ih, size,
            Nat.add_assoc offset bytes.length]

theorem completedFrom_append (first : Nat) (front back : List (List Segment)) :
    completedFrom first (front ++ back) =
      completedFrom first front ++ completedFrom (first + front.length) back := by
  induction front generalizing first with
  | nil => rfl
  | cons segments front ih =>
      have next : first + 1 + front.length = first + (segments :: front).length := by
        rw [List.length_cons]
        omega
      rw [List.cons_append, completedFrom, completedFrom, ih, next, List.append_assoc]

/-- A completed frame stands in its file where its position says. -/
theorem mem_completedIn {file offset : Nat} {segments : List Segment} {entry : BlockPos × Bytes}
    (member : entry ∈ completedIn file offset segments) :
    entry.1.file = file ∧ entry.1.size = entry.2.length ∧ Segment.frame entry.2 ∈ segments ∧
      ∃ front rest, contentsOf segments = front ++ (BlockFiles.frame entry.2 ++ rest) ∧
        entry.1.offset = offset + front.length := by
  induction segments generalizing offset with
  | nil => cases member
  | cons segment segments ih =>
      have parts : contentsOf (segment :: segments) = segment.bytes ++ contentsOf segments := rfl
      have later : ∀ moved, moved = offset + segment.bytes.length →
          entry ∈ completedIn file moved segments →
          entry.1.file = file ∧ entry.1.size = entry.2.length ∧
            Segment.frame entry.2 ∈ segment :: segments ∧
            ∃ front rest, contentsOf (segment :: segments) =
                front ++ (BlockFiles.frame entry.2 ++ rest) ∧
              entry.1.offset = offset + front.length := by
        rintro moved rfl inside
        obtain ⟨same, size, listed, front, rest, contents, place⟩ := ih inside
        refine ⟨same, size, List.mem_cons_of_mem _ listed, segment.bytes ++ front, rest, ?_, ?_⟩
        · rw [parts, contents, List.append_assoc]
        · rw [place, List.length_append, Nat.add_assoc]
      cases segment with
      | frame payload =>
          obtain rfl | inside := List.mem_cons.mp member
          · exact ⟨rfl, rfl, List.mem_cons_self, [], contentsOf segments, parts, rfl⟩
          · exact later _ (by rw [Segment.bytes, length_frame]) inside
      | torn bytes => exact later _ rfl member

theorem mem_completedFrom {first : Nat} {files : List (List Segment)} {entry : BlockPos × Bytes}
    (member : entry ∈ completedFrom first files) :
    ∃ place segments, files[place]? = some segments ∧
      entry ∈ completedIn (first + place) 0 segments := by
  induction files generalizing first with
  | nil => cases member
  | cons segments files ih =>
      obtain here | later := List.mem_append.mp member
      · exact ⟨0, segments, rfl, here⟩
      · obtain ⟨place, found, listed, inside⟩ := ih later
        rw [Nat.add_assoc, Nat.add_comm 1] at inside
        exact ⟨place + 1, found, listed, inside⟩

/-! ## Writing -/

/-- A store whose directory holds this layout, and which writes at its end. -/
structure Laid (layout : Layout) (store : BlockFiles) : Prop where
  directory : store.directory = layout.directory
  file : store.currentFile = layout.full.length
  size : store.currentFileSize = (contentsOf layout.last).length

/-- The store that `init` makes of an empty directory. -/
theorem laid_empty : Laid ⟨[], []⟩ (scanExisting []) := ⟨rfl, rfl, rfl⟩

/-- Writing a segment after a rotation for a frame of this size. -/
theorem Laid.write {layout : Layout} {store : BlockFiles} (laid : Laid layout store)
    (upcoming : Nat) (segment : Segment) :
    (store.rotateIfNeeded upcoming).directory.append
        (fileName (store.rotateIfNeeded upcoming).currentFile) segment.bytes =
        (layout.add upcoming segment).directory ∧
      (store.rotateIfNeeded upcoming).currentFile = (layout.add upcoming segment).full.length ∧
      (store.rotateIfNeeded upcoming).currentFileSize + segment.bytes.length =
        (contentsOf (layout.add upcoming segment).last).length := by
  obtain ⟨directory, file, size⟩ := laid
  by_cases room : (contentsOf layout.last).length + upcoming ≤ kMaxBlockFileSize
  · have kept : store.rotateIfNeeded upcoming = store := if_pos (by rw [size]; exact room)
    have grown : layout.add upcoming segment = { layout with last := layout.last ++ [segment] } :=
      if_pos room
    rw [kept, grown]
    refine ⟨?_, file, ?_⟩
    · have appended := append_last 0 (layout.full.map contentsOf) (contentsOf layout.last)
        segment.bytes
      rw [List.length_map, Nat.zero_add] at appended
      simp only [directory, file, Layout.directory, Layout.files, List.map_append, List.map_cons,
        List.map_nil, contentsOf_append, contentsOf_singleton]
      exact appended
    · rw [size, contentsOf_append, contentsOf_singleton, List.length_append]
  · have rotated : store.rotateIfNeeded upcoming =
        { store with currentFile := store.currentFile + 1, currentFileSize := 0 } :=
      if_neg (by rw [size]; exact room)
    have grown : layout.add upcoming segment = ⟨layout.files, [segment]⟩ := if_neg room
    have count : layout.files.length = layout.full.length + 1 := List.length_append
    rw [rotated, grown]
    refine ⟨?_, ?_, ?_⟩
    · have appended := append_new 0 (layout.files.map contentsOf) segment.bytes
      rw [List.length_map, Nat.zero_add, count] at appended
      simp only [directory, file, Layout.directory, Layout.files, List.map_append, List.map_cons,
        List.map_nil, contentsOf_singleton] at appended ⊢
      exact appended
    · rw [count]
      exact congrArg (· + 1) file
    · rw [contentsOf_singleton]
      exact Nat.zero_add _

theorem add_cases (layout : Layout) (upcoming : Nat) (segment : Segment) :
    ((contentsOf layout.last).length + upcoming ≤ kMaxBlockFileSize ∧
        layout.add upcoming segment = { layout with last := layout.last ++ [segment] }) ∨
      (¬(contentsOf layout.last).length + upcoming ≤ kMaxBlockFileSize ∧
        layout.add upcoming segment = ⟨layout.files, [segment]⟩) := by
  by_cases room : (contentsOf layout.last).length + upcoming ≤ kMaxBlockFileSize
  · exact .inl ⟨room, if_pos room⟩
  · exact .inr ⟨room, if_neg room⟩

theorem completed_files (full : List (List Segment)) (last : List Segment) :
    completedFrom 0 (full ++ [last]) =
      completedFrom 0 full ++ completedIn full.length 0 last := by
  rw [completedFrom_append, Nat.zero_add, completedFrom, completedFrom, List.append_nil]

/-- A completed append adds its own frame to those that are completed. -/
theorem Laid.completed_add {layout : Layout} {store : BlockFiles} (laid : Laid layout store)
    (payload : Bytes) :
    (layout.add (4 + payload.length) (.frame payload)).completed =
      layout.completed ++
        [(⟨(store.rotateIfNeeded (4 + payload.length)).currentFile,
          (store.rotateIfNeeded (4 + payload.length)).currentFileSize, payload.length⟩,
          payload)] := by
  obtain ⟨_, file, size⟩ := laid
  obtain ⟨room, grown⟩ | ⟨room, grown⟩ :=
    add_cases layout (4 + payload.length) (.frame payload)
  · have kept : store.rotateIfNeeded (4 + payload.length) = store :=
      if_pos (by rw [size]; exact room)
    rw [kept, grown, Layout.completed, Layout.completed, Layout.files, Layout.files,
      completed_files, completed_files, completedIn_append, file, size, Nat.zero_add,
      List.append_assoc]
    rfl
  · have rotated : store.rotateIfNeeded (4 + payload.length) =
        { store with currentFile := store.currentFile + 1, currentFileSize := 0 } :=
      if_neg (by rw [size]; exact room)
    have count : layout.files.length = store.currentFile + 1 := by
      rw [file]
      exact List.length_append
    rw [rotated, grown, Layout.completed, Layout.files, completed_files, count]
    rfl

theorem Laid.appendBlock {layout : Layout} {store : BlockFiles} (laid : Laid layout store)
    (payload : Bytes) :
    Laid (layout.add (4 + payload.length) (.frame payload)) (store.appendBlock payload) := by
  obtain ⟨directory, file, size⟩ := laid.write (4 + payload.length) (.frame payload)
  rw [Segment.bytes, length_frame] at size
  exact ⟨directory, file, size⟩

theorem rotateIfNeeded_index (store : BlockFiles) (upcoming : Nat) :
    (store.rotateIfNeeded upcoming).index = store.index ∧
      (store.rotateIfNeeded upcoming).nextIndex = store.nextIndex := by
  rw [BlockFiles.rotateIfNeeded]
  split
  · exact ⟨rfl, rfl⟩
  · exact ⟨rfl, rfl⟩

/-! ## Appends without a crash -/

/-- A file of good frames only. -/
def Whole (segments : List Segment) : Prop :=
  ∀ segment ∈ segments, ∃ payload, segment = .frame payload ∧ Good payload

theorem length_completedIn_pos {segments : List Segment} (whole : Whole segments)
    (written : segments ≠ []) (file offset : Nat) :
    0 < (completedIn file offset segments).length := by
  cases segments with
  | nil => exact absurd rfl written
  | cons segment segments =>
      obtain ⟨payload, rfl, _⟩ := whole segment List.mem_cons_self
      exact Nat.succ_pos _

/-- A scan of good frames finds them one after the other. -/
theorem scanFile_whole {file fuel : Nat} {segments : List Segment} (whole : Whole segments)
    (front : Bytes) (enough : (contentsOf segments).length ≤ fuel) :
    scanFile file (front ++ contentsOf segments) fuel front.length =
      (completedIn file front.length segments).map Prod.fst := by
  induction segments generalizing front fuel with
  | nil =>
      have ended : ¬front.length + 4 ≤ (front ++ contentsOf []).length := by
        rw [contentsOf, List.flatMap_nil, List.append_nil]
        omega
      cases fuel with
      | zero => rfl
      | succ fuel => exact if_neg ended
  | cons segment segments ih =>
      rw [Whole, List.forall_mem_cons] at whole
      obtain ⟨payload, rfl, good⟩ := whole.1
      have parts : contentsOf (.frame payload :: segments) =
          BlockFiles.frame payload ++ contentsOf segments := rfl
      have size := congrArg List.length parts
      rw [List.length_append, length_frame] at size
      cases fuel with
      | zero => omega
      | succ fuel =>
          have inside : front.length + 4 ≤
              (front ++ contentsOf (.frame payload :: segments)).length := by
            rw [List.length_append]
            omega
          have found := frameAt_frame good front (contentsOf segments)
          have rest := @ih fuel whole.2 (front ++ BlockFiles.frame payload) (by omega)
          rw [List.length_append, length_frame, List.append_assoc, ← parts] at rest
          rw [← parts] at found
          rw [scanFile, if_pos inside, found, completedIn, List.map_cons, ← rest,
            ← Nat.add_assoc front.length]

theorem scanFrom_whole {first : Nat} {files : List (List Segment)}
    (whole : ∀ segments ∈ files, Whole segments) :
    scanFrom first (files.map contentsOf) = (completedFrom first files).map Prod.fst := by
  induction files generalizing first with
  | nil => rfl
  | cons segments files ih =>
      rw [List.forall_mem_cons] at whole
      have scanned := @scanFile_whole first _ _ whole.1 [] (Nat.le_refl _)
      rw [List.map_cons, scanFrom, ih whole.2, completedFrom, List.map_append]
      exact congrArg (· ++ _) scanned

/-- How far the files are filled by another payload of this length: their number
and the bytes in the last one. -/
def fill (used : Nat × Nat) (length : Nat) : Nat × Nat :=
  if used.2 + (4 + length) ≤ kMaxBlockFileSize then (used.1, used.2 + (4 + length))
  else (used.1 + 1, 4 + length)

/-- How many files payloads of these lengths take. -/
def filesUsed (lengths : List Nat) : Nat := (lengths.foldl fill (1, 0)).1

/-- A store that these payloads were appended to, from an empty directory on. -/
def storeOf (payloads : List Bytes) : BlockFiles :=
  payloads.foldl BlockFiles.appendBlock (scanExisting [])

/-- What appends without a crash leave. -/
structure Appended (payloads : List Bytes) (layout : Layout) (store : BlockFiles) : Prop where
  laid : Laid layout store
  index : store.index = layout.completed.map Prod.fst
  next : store.nextIndex = store.index.length
  held : layout.completed.map Prod.snd = payloads
  whole : ∀ segments ∈ layout.files, Whole segments
  used : (payloads.map List.length).foldl fill (1, 0) =
    (layout.files.length, (contentsOf layout.last).length)
  filled : layout.full ≠ [] → layout.last ≠ []

theorem appended_nil : Appended [] ⟨[], []⟩ (scanExisting []) where
  laid := laid_empty
  index := rfl
  next := rfl
  held := rfl
  whole := by
    intro segments member
    cases List.mem_singleton.mp member
    intro segment inside
    cases inside
  used := rfl
  filled := fun full => absurd rfl full

theorem Appended.append {payloads : List Bytes} {layout : Layout} {store : BlockFiles}
    (appended : Appended payloads layout store) {payload : Bytes} (good : Good payload) :
    Appended (payloads ++ [payload]) (layout.add (4 + payload.length) (.frame payload))
      (store.appendBlock payload) := by
  have completed := appended.laid.completed_add payload
  obtain ⟨keptIndex, keptNext⟩ := rotateIfNeeded_index store (4 + payload.length)
  have added : Whole [.frame payload] := by
    intro segment member
    exact ⟨payload, List.mem_singleton.mp member, good⟩
  have indexed : (store.appendBlock payload).index = store.index ++
      [⟨(store.rotateIfNeeded (4 + payload.length)).currentFile,
        (store.rotateIfNeeded (4 + payload.length)).currentFileSize, payload.length⟩] := by
    have word : payload.length % 2 ^ 32 = payload.length := Nat.mod_eq_of_lt good.word
    rw [BlockFiles.appendBlock, keptIndex, word]
  have counted : (store.appendBlock payload).nextIndex = store.nextIndex + 1 := by
    rw [BlockFiles.appendBlock, keptNext]
  refine ⟨appended.laid.appendBlock payload, ?_, ?_, ?_, ?_, ?_, ?_⟩
  · rw [indexed, appended.index, completed, List.map_append]
    rfl
  · rw [counted, indexed, appended.next, List.length_append]
    rfl
  · rw [completed, List.map_append, appended.held]
    rfl
  · obtain ⟨_, grown⟩ | ⟨_, grown⟩ := add_cases layout (4 + payload.length) (.frame payload)
    · rw [grown]
      intro segments member segment inside
      obtain old | rfl := List.mem_append.mp member |>.imp_right List.mem_singleton.mp
      · exact appended.whole segments (List.mem_append_left _ old) segment inside
      · obtain old | new := List.mem_append.mp inside
        · exact appended.whole layout.last (List.mem_append_right _ List.mem_cons_self) segment old
        · exact added segment new
    · rw [grown]
      intro segments member
      obtain old | rfl := List.mem_append.mp member |>.imp_right List.mem_singleton.mp
      · exact appended.whole segments old
      · exact added
  · rw [List.map_append, List.foldl_append, appended.used, length_files, length_files,
      List.map_cons, List.foldl_cons, List.map_nil, List.foldl_nil]
    obtain ⟨room, grown⟩ | ⟨room, grown⟩ :=
      add_cases layout (4 + payload.length) (.frame payload)
    · rw [grown, contentsOf_append, contentsOf_singleton, List.length_append, Segment.bytes,
        length_frame]
      exact if_pos room
    · rw [grown, contentsOf_singleton, Segment.bytes, length_frame]
      exact (if_neg room).trans (congrArg (·, _) (congrArg (· + 1) (length_files layout).symm))
  · obtain ⟨_, grown⟩ | ⟨_, grown⟩ := add_cases layout (4 + payload.length) (.frame payload)
    · rw [grown]
      exact fun _ => List.append_ne_nil_of_right_ne_nil _ (List.cons_ne_nil _ _)
    · rw [grown]
      exact fun _ => List.cons_ne_nil _ _

theorem appended_storeOf {payloads : List Bytes} (good : ∀ payload ∈ payloads, Good payload) :
    ∃ layout, Appended payloads layout (storeOf payloads) := by
  induction payloads using List.reverseRecOn with
  | nil => exact ⟨_, appended_nil⟩
  | append_singleton payloads payload ih =>
      obtain ⟨layout, appended⟩ := ih fun other member => good other (List.mem_append_left _ member)
      have next := appended.append (good payload (List.mem_append_right _ List.mem_cons_self))
      rw [storeOf, List.foldl_append]
      exact ⟨_, next⟩

theorem Appended.filesUsed {payloads : List Bytes} {layout : Layout} {store : BlockFiles}
    (appended : Appended payloads layout store) :
    filesUsed (payloads.map List.length) = layout.full.length + 1 := by
  rw [PiSecure.filesUsed, appended.used, length_files]

/-- Opening the directory again gives the store that was closed. -/
theorem Appended.reopened {payloads : List Bytes} {layout : Layout} {store : BlockFiles}
    (appended : Appended payloads layout store) (few : layout.full.length < 100000) :
    scanExisting store.directory = store := by
  obtain ⟨directory, file, size⟩ := appended.laid
  have parts : store.directory =
      directoryFrom 0 (layout.full.map contentsOf ++ [contentsOf layout.last]) := by
    rw [directory, Layout.directory, Layout.files, List.map_append]
    rfl
  have found : scanFrom 0 (layout.full.map contentsOf ++ [contentsOf layout.last]) =
      store.index := by
    have scanned := @scanFrom_whole 0 _ appended.whole
    rw [Layout.files, List.map_append] at scanned
    exact scanned.trans appended.index.symm
  rw [parts, scanExisting_directoryFrom (by rw [List.length_map]; exact few), found, ← parts,
    ← appended.next, List.length_map, ← file, ← size]

/-- The payload of each append is read back. -/
theorem Appended.read {payloads : List Bytes} {layout : Layout} {store : BlockFiles}
    (appended : Appended payloads layout store) (good : ∀ payload ∈ payloads, Good payload)
    (place : Nat) : store.readBlock place = payloads[place]? := by
  rw [← appended.held, List.getElem?_map]
  cases found : layout.completed[place]? with
  | none =>
      have missing : store.index[place]? = none := by
        rw [appended.index, List.getElem?_map, found]
        rfl
      rw [BlockFiles.readBlock, missing]
      rfl
  | some entry =>
      have indexed : store.index[place]? = some entry.1 := by
        rw [appended.index, List.getElem?_map, found]
        rfl
      have listed := List.mem_of_getElem? found
      obtain ⟨number, segments, file, inside⟩ := mem_completedFrom listed
      obtain ⟨same, size, _, front, rest, contents, offset⟩ := mem_completedIn inside
      have known : entry.2 ∈ payloads := by
        rw [← appended.held]
        exact List.mem_map_of_mem listed
      have held : store.directory.contents (fileName entry.1.file) =
          some (front ++ (BlockFiles.frame entry.2 ++ rest)) := by
        rw [same, appended.laid.directory, Layout.directory, contents_directoryFrom,
          List.getElem?_map, file, ← contents]
        rfl
      rw [Nat.zero_add] at offset
      exact readBlock_of_frame indexed held offset size (good entry.2 known).word

/-- A store opened again has the payloads that were appended, in their order, and
puts the next one where the store before would have put it. -/
structure RestartStable (payloads : List Bytes) : Prop where
  count : (scanExisting (storeOf payloads).directory).nextIndex = payloads.length
  read : ∀ place,
    (scanExisting (storeOf payloads).directory).readBlock place = payloads[place]?
  position : ∀ payload,
    ((scanExisting (storeOf payloads).directory).appendBlock payload).index.getLast? =
      ((storeOf payloads).appendBlock payload).index.getLast?

/-- Payloads that begin with a brace and fit in a block file. -/
structure Fits (payloads : List Bytes) : Prop where
  braced : ∀ payload ∈ payloads, payload.head? = some 123
  sized : ∀ payload ∈ payloads, payload.length < 128 * 1024 * 1024

theorem Fits.good {payloads : List Bytes} (fits : Fits payloads) :
    ∀ payload ∈ payloads, Good payload := by
  intro payload member
  have size := fits.sized payload member
  exact ⟨fits.braced payload member, by omega⟩

theorem restartStable_of_few {payloads : List Bytes} (fits : Fits payloads)
    (few : filesUsed (payloads.map List.length) ≤ 100000) : RestartStable payloads := by
  obtain ⟨layout, appended⟩ := appended_storeOf fits.good
  rw [appended.filesUsed] at few
  have same := appended.reopened (by omega)
  have count : (storeOf payloads).nextIndex = payloads.length := by
    rw [appended.next, appended.index, List.length_map, ← appended.held, List.length_map]
  refine ⟨?_, ?_, ?_⟩
  · rw [same, count]
  · intro place
    rw [same]
    exact appended.read fits.good place
  · intro payload
    rw [same]

/-- The frames in a file with a longer number are not counted after a restart. -/
theorem not_restartStable_of_many {payloads : List Bytes} (fits : Fits payloads)
    (many : 100000 < filesUsed (payloads.map List.length)) : ¬RestartStable payloads := by
  obtain ⟨layout, appended⟩ := appended_storeOf fits.good
  rw [appended.filesUsed] at many
  intro stable
  have scanned := (scanExisting_index (layout.files.map contentsOf)).2
  rw [← Layout.directory, ← appended.laid.directory, stable.count, ← List.map_take,
    scanFrom_whole fun segments member => appended.whole segments (List.mem_of_mem_take member),
    List.length_map] at scanned
  have parts : layout.files = layout.files.take 100000 ++
      (layout.full.drop 100000 ++ [layout.last]) := by
    rw [← List.drop_append_of_le_length (by omega)]
    exact (List.take_append_drop _ _).symm
  have full : layout.full ≠ [] := by
    intro none
    rw [none, List.length_nil] at many
    omega
  have inLast := length_completedIn_pos
    (appended.whole layout.last (List.mem_append_right _ List.mem_cons_self))
    (appended.filled full)
  have total := congrArg List.length appended.held
  rw [List.length_map, Layout.completed, parts, completedFrom_append, completedFrom_append,
    List.length_append, List.length_append, completedFrom, List.length_append] at total
  have last := inLast (0 + (layout.files.take 100000).length + (layout.full.drop 100000).length) 0
  omega

/-- A restart is stable exactly as long as the payloads take at most 100000 files. -/
theorem restart_stable_iff {payloads : List Bytes}
    (braced : ∀ payload ∈ payloads, payload.head? = some 123)
    (sized : ∀ payload ∈ payloads, payload.length < 128 * 1024 * 1024) :
    RestartStable payloads ↔ filesUsed (payloads.map List.length) ≤ 100000 := by
  have fits : Fits payloads := ⟨braced, sized⟩
  constructor
  · intro stable
    by_contra many
    exact not_restartStable_of_many fits (Nat.lt_of_not_le many) stable
  · exact restartStable_of_few fits

theorem restart_stable_pair : RestartStable [[123, 125], [123, 34, 34, 58, 49, 125]] :=
  (restart_stable_iff (by decide) (by decide)).mpr (by decide)

/-- Two payloads of 64 MiB do not share a file. -/
theorem foldl_fill_replicate (count number : Nat) :
    (List.replicate count 67108864).foldl fill (number, 67108868) = (number + count, 67108868) := by
  induction count generalizing number with
  | zero => rfl
  | succ count ih =>
      have full : ¬67108868 + (4 + 67108864) ≤ kMaxBlockFileSize := by decide
      have next : fill (number, 67108868) 67108864 = (number + 1, 67108868) := if_neg full
      rw [List.replicate_succ, List.foldl_cons, next, ih, Nat.add_assoc, Nat.add_comm 1]

theorem filesUsed_replicate (count : Nat) :
    filesUsed (List.replicate (count + 1) 67108864) = count + 1 := by
  have first : fill (1, 0) 67108864 = (1, 67108868) := if_pos (by decide)
  rw [filesUsed, List.replicate_succ, List.foldl_cons, first, foldl_fill_replicate, Nat.add_comm]

/-- With 100001 payloads of 64 MiB the last file has a name that the scanner
does not know. -/
theorem restart_loses_file :
    ¬RestartStable (List.replicate 100001 (List.replicate 67108864 123)) := by
  have same : ∀ payload ∈ List.replicate 100001 (List.replicate 67108864 (123 : UInt8)),
      payload = List.replicate 67108864 123 := fun _ => List.eq_of_mem_replicate
  refine not_restartStable_of_many ⟨?_, ?_⟩ ?_
  · intro payload member
    rw [same payload member, List.head?_replicate]
    exact if_neg (by decide)
  · intro payload member
    rw [same payload member, List.length_replicate]
    decide
  · rw [List.map_replicate, List.length_replicate, filesUsed_replicate]
    decide

end PiSecure
