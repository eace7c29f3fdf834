import PiSecure.Theory.BlockFiles

/-! # Block files after crashes

A process that is killed in an append leaves a part of a frame behind, and the
appends after the next start follow it. The scanner goes on byte by byte there,
and takes whatever looks like a frame. So a completed frame is lost when the
remains in front of it look like a frame that ends behind its start.
-/

namespace PiSecure

/-- What happens to the block files: an append that is completed, an append in
which the process is killed after some bytes of the frame and started again, or
another start. -/
inductive DiskEvent where
  | append (payload : Bytes)
  | killed (payload : Bytes) (kept : Nat)
  | restart

def DiskEvent.run (store : BlockFiles) : DiskEvent → BlockFiles
  | .append payload => store.appendBlock payload
  | .killed payload kept => scanExisting (store.killedAppend payload kept)
  | .restart => scanExisting store.directory

/-- The store after these events, from an empty directory on. -/
def afterEvents (events : List DiskEvent) : BlockFiles :=
  events.foldl DiskEvent.run (scanExisting [])

def DiskEvent.lay (layout : Layout) : DiskEvent → Layout
  | .append payload => layout.add (4 + payload.length) (.frame payload)
  | .killed payload kept =>
      layout.add (4 + payload.length) (.torn ((BlockFiles.frame payload).take kept))
  | .restart => layout

/-- What these events write. -/
def layoutOf (events : List DiskEvent) : Layout := events.foldl DiskEvent.lay ⟨[], []⟩

/-- The offsets at which the completed frames of a file start. -/
def starts : Nat → List Segment → List Nat
  | _, [] => []
  | offset, .frame payload :: rest => offset :: starts (offset + (4 + payload.length)) rest
  | offset, .torn bytes :: rest => starts (offset + bytes.length) rest

/-- Nothing that the scan takes for a frame in this file passes over the start
of a completed frame. -/
def Unswallowed (segments : List Segment) : Prop :=
  ∀ start ∈ starts 0 segments, ∀ offset len, Visits (resume (contentsOf segments)) 0 offset →
    offset < start → frameAt (contentsOf segments) offset = some len → offset + 4 + len ≤ start

/-- After another start, each append that was completed is in the index and read
back. -/
def Recovered (events : List DiskEvent) : Prop :=
  ∀ entry ∈ (layoutOf events).completed, ∃ place,
    (scanExisting (afterEvents events).directory).index[place]? = some entry.1 ∧
      (scanExisting (afterEvents events).directory).readBlock place = some entry.2

/-! ## The directory -/

theorem length_full_add (layout : Layout) (upcoming : Nat) (segment : Segment) :
    layout.full.length ≤ (layout.add upcoming segment).full.length := by
  obtain ⟨_, grown⟩ | ⟨_, grown⟩ := add_cases layout upcoming segment
  · rw [grown]
  · rw [grown]
    exact Nat.le_of_lt (Nat.lt_of_lt_of_eq (Nat.lt_succ_self _) (length_files layout).symm)

theorem length_full_lay (layout : Layout) (event : DiskEvent) :
    layout.full.length ≤ (event.lay layout).full.length := by
  cases event with
  | append payload => exact length_full_add _ _ _
  | killed payload kept => exact length_full_add _ _ _
  | restart => exact Nat.le_refl _

theorem directory_eq (layout : Layout) :
    layout.directory =
      directoryFrom 0 (layout.full.map contentsOf ++ [contentsOf layout.last]) := by
  rw [Layout.directory, Layout.files, List.map_append]
  rfl

/-- A start on files that the scanner knows goes on where they end. -/
theorem laid_reopen {layout : Layout} (few : layout.full.length < 100000) :
    Laid layout (scanExisting layout.directory) := by
  rw [directory_eq, scanExisting_directoryFrom (by rw [List.length_map]; exact few)]
  refine ⟨(directory_eq layout).symm, ?_, rfl⟩
  exact List.length_map _

theorem Laid.run {layout : Layout} {store : BlockFiles} (laid : Laid layout store)
    (event : DiskEvent) (few : (event.lay layout).full.length < 100000) :
    Laid (event.lay layout) (event.run store) := by
  cases event with
  | append payload => exact laid.appendBlock payload
  | killed payload kept =>
      have written := (laid.write (4 + payload.length)
        (.torn ((BlockFiles.frame payload).take kept))).1
      have reopened := laid_reopen few
      rw [DiskEvent.run, BlockFiles.killedAppend]
      exact written ▸ reopened
  | restart =>
      rw [DiskEvent.run, laid.directory]
      exact laid_reopen few

theorem laid_afterEvents {events : List DiskEvent}
    (few : (layoutOf events).full.length < 100000) :
    Laid (layoutOf events) (afterEvents events) := by
  induction events using List.reverseRecOn with
  | nil => exact laid_empty
  | append_singleton events event ih =>
      rw [layoutOf, List.foldl_append] at few ⊢
      rw [afterEvents, List.foldl_append]
      have grown := length_full_lay (layoutOf events) event
      exact (ih (Nat.lt_of_le_of_lt grown few)).run event few

/-! ## The scan -/

theorem map_completedIn (file offset : Nat) (segments : List Segment) :
    (completedIn file offset segments).map (fun entry => entry.1.offset) =
      starts offset segments := by
  induction segments generalizing offset with
  | nil => rfl
  | cons segment segments ih =>
      cases segment with
      | frame payload => exact congrArg (offset :: ·) (ih _)
      | torn bytes => exact ih _

theorem exists_completedIn {file offset : Nat} {segments : List Segment} {payload : Bytes}
    (member : Segment.frame payload ∈ segments) :
    ∃ entry ∈ completedIn file offset segments, entry.2 = payload := by
  induction segments generalizing offset with
  | nil => cases member
  | cons segment segments ih =>
      obtain rfl | later := List.mem_cons.mp member
      · exact ⟨_, List.mem_cons_self, rfl⟩
      · cases segment with
        | frame other =>
            obtain ⟨entry, inside, same⟩ := @ih (offset + (4 + other.length)) later
            exact ⟨entry, List.mem_cons_of_mem _ inside, same⟩
        | torn bytes => exact ih later

theorem mem_completedFrom_iff {first : Nat} {files : List (List Segment)}
    {entry : BlockPos × Bytes} :
    entry ∈ completedFrom first files ↔ ∃ place segments, files[place]? = some segments ∧
      entry ∈ completedIn (first + place) 0 segments := by
  constructor
  · exact mem_completedFrom
  · rintro ⟨place, segments, found, inside⟩
    induction files generalizing first place with
    | nil => cases found
    | cons head files ih =>
        cases place with
        | zero =>
            cases found
            exact List.mem_append_left _ inside
        | succ place =>
            rw [Nat.add_comm place, ← Nat.add_assoc] at inside
            exact List.mem_append_right _ (ih place found inside)

theorem mem_scanFrom {first : Nat} {contents : List Bytes} {pos : BlockPos} :
    pos ∈ scanFrom first contents ↔ ∃ place bytes, contents[place]? = some bytes ∧
      pos.file = first + place ∧ Visits (resume bytes) 0 pos.offset ∧
        frameAt bytes pos.offset = some pos.size := by
  induction contents generalizing first with
  | nil =>
      constructor
      · intro member
        cases member
      · rintro ⟨_, _, found, _⟩
        cases found
  | cons bytes contents ih =>
      have scanned : pos ∈ scanFile first bytes bytes.length 0 ↔ _ :=
        mem_scanFile (Nat.le_add_left _ _)
      rw [scanFrom, List.mem_append, ih, scanned]
      constructor
      · rintro (⟨same, visited⟩ | ⟨place, other, found, same, visited⟩)
        · exact ⟨0, bytes, rfl, same, visited⟩
        · exact ⟨place + 1, other, found, by omega, visited⟩
      · rintro ⟨place, other, found, same, visited⟩
        cases place with
        | zero =>
            cases found
            exact .inl ⟨same, visited⟩
        | succ place => exact .inr ⟨place, other, found, by omega, visited⟩

/-- The scan visits the starts of all completed frames exactly when it takes
nothing in front of them that ends behind them. -/
theorem unswallowed_iff {segments : List Segment} :
    Unswallowed segments ↔
      ∀ start ∈ starts 0 segments, Visits (resume (contentsOf segments)) 0 start := by
  constructor
  · intro clear start member
    refine (Visits.iff_not_passed (resume_forward _) (Nat.zero_le _)).mpr ?_
    intro offset visited order
    rw [resume]
    cases found : frameAt (contentsOf segments) offset with
    | none => exact order
    | some len => exact clear start member offset len visited order found
  · intro visits start member offset len visited order found
    have next := (Visits.iff_not_passed (resume_forward _) (Nat.zero_le _)).mp
      (visits start member) offset visited order
    rwa [resume, found] at next

/-! ## Recovery -/

theorem mem_add {layout : Layout} {upcoming : Nat} {segment other : Segment} :
    (∃ segments ∈ (layout.add upcoming segment).files, other ∈ segments) ↔
      (∃ segments ∈ layout.files, other ∈ segments) ∨ other = segment := by
  obtain ⟨_, grown⟩ | ⟨_, grown⟩ := add_cases layout upcoming segment
  · rw [grown]
    simp only [Layout.files, List.mem_append, List.mem_singleton, or_and_right, exists_or,
      exists_eq_left, or_assoc]
  · rw [grown]
    simp only [Layout.files, List.mem_append, List.mem_singleton, or_and_right, exists_or,
      exists_eq_left]

/-- The payloads of completed appends are those of the completed frames. -/
theorem frame_mem_layoutOf {events : List DiskEvent} {payload : Bytes} :
    (∃ segments ∈ (layoutOf events).files, Segment.frame payload ∈ segments) ↔
      .append payload ∈ events := by
  induction events using List.reverseRecOn with
  | nil => simp [layoutOf, Layout.files]
  | append_singleton events event ih =>
      rw [layoutOf, List.foldl_append, ← layoutOf, List.mem_append, ← ih, List.mem_singleton]
      cases event with
      | append other => simp [DiskEvent.lay, mem_add]
      | killed other kept => simp [DiskEvent.lay, mem_add]
      | restart => simp [DiskEvent.lay]

section Restart

variable {events : List DiskEvent} (few : (layoutOf events).full.length < 100000)
include few

theorem reopened_directory :
    (scanExisting (afterEvents events).directory).directory = (layoutOf events).directory := by
  rw [(laid_afterEvents few).directory]
  exact (laid_reopen few).directory

theorem reopened_index :
    (scanExisting (afterEvents events).directory).index =
      scanFrom 0 ((layoutOf events).files.map contentsOf) := by
  have all : ((layoutOf events).files.map contentsOf).take 100000 =
      (layoutOf events).files.map contentsOf := by
    apply List.take_of_length_le
    rw [List.length_map, length_files]
    omega
  rw [(laid_afterEvents few).directory, Layout.directory, (scanExisting_index _).1, all]

/-- A completed frame is in the index when the scan of its file visits it. -/
theorem indexed_iff {place : Nat} {segments : List Segment} {entry : BlockPos × Bytes}
    (file : (layoutOf events).files[place]? = some segments)
    (inside : entry ∈ completedIn (0 + place) 0 segments) :
    entry.1 ∈ (scanExisting (afterEvents events).directory).index ↔
      Visits (resume (contentsOf segments)) 0 entry.1.offset ∧
        frameAt (contentsOf segments) entry.1.offset = some entry.1.size := by
  have same := (mem_completedIn inside).1
  rw [reopened_index few, mem_scanFrom]
  constructor
  · rintro ⟨other, bytes, found, number, visited, size⟩
    have one : other = place := by omega
    rw [one, List.getElem?_map, file] at found
    cases found
    exact ⟨visited, size⟩
  · rintro ⟨visited, size⟩
    refine ⟨place, contentsOf segments, ?_, same, visited, size⟩
    rw [List.getElem?_map, file]
    rfl

theorem word_of_recovered (recovered : Recovered events) {payload : Bytes}
    (appended : .append payload ∈ events) : payload.length < 2 ^ 32 := by
  obtain ⟨segments, member, framed⟩ := frame_mem_layoutOf.mpr appended
  obtain ⟨place, file⟩ := List.mem_iff_getElem?.mp member
  obtain ⟨entry, inside, rfl⟩ := @exists_completedIn (0 + place) 0 _ _ framed
  have completed : entry ∈ (layoutOf events).completed :=
    mem_completedFrom_iff.mpr ⟨place, segments, file, inside⟩
  obtain ⟨number, indexed, _⟩ := recovered entry completed
  have found := ((indexed_iff few file inside).mp (List.mem_of_getElem? indexed)).2
  rw [← (mem_completedIn inside).2.1]
  exact (frameAt_le found).2.2

theorem unswallowed_of_recovered (recovered : Recovered events) {segments : List Segment}
    (member : segments ∈ (layoutOf events).files) : Unswallowed segments := by
  obtain ⟨place, file⟩ := List.mem_iff_getElem?.mp member
  refine unswallowed_iff.mpr ?_
  intro start listed
  rw [← map_completedIn (0 + place)] at listed
  obtain ⟨entry, inside, rfl⟩ := List.mem_map.mp listed
  have completed : entry ∈ (layoutOf events).completed :=
    mem_completedFrom_iff.mpr ⟨place, segments, file, inside⟩
  obtain ⟨number, indexed, _⟩ := recovered entry completed
  exact ((indexed_iff few file inside).mp (List.mem_of_getElem? indexed)).1

theorem recovered_of_unswallowed
    (good : ∀ payload, .append payload ∈ events → Good payload)
    (clear : ∀ segments ∈ (layoutOf events).files, Unswallowed segments) : Recovered events := by
  intro entry completed
  obtain ⟨place, segments, file, inside⟩ := mem_completedFrom_iff.mp completed
  obtain ⟨same, size, framed, front, rest, contents, offset⟩ := mem_completedIn inside
  have member := List.mem_of_getElem? file
  have sound := good entry.2 (frame_mem_layoutOf.mp ⟨segments, member, framed⟩)
  rw [Nat.zero_add] at offset
  have visited : Visits (resume (contentsOf segments)) 0 entry.1.offset := by
    apply unswallowed_iff.mp (clear segments member)
    rw [← map_completedIn (0 + place)]
    exact List.mem_map_of_mem inside
  have found : frameAt (contentsOf segments) entry.1.offset = some entry.1.size := by
    rw [contents, offset, size]
    exact frameAt_frame sound front rest
  obtain ⟨number, indexed⟩ :=
    List.mem_iff_getElem?.mp ((indexed_iff few file inside).mpr ⟨visited, found⟩)
  refine ⟨number, indexed, ?_⟩
  have held : (scanExisting (afterEvents events).directory).directory.contents
      (fileName entry.1.file) = some (front ++ (BlockFiles.frame entry.2 ++ rest)) := by
    rw [reopened_directory few, same, Layout.directory, contents_directoryFrom,
      List.getElem?_map, file, ← contents]
    rfl
  exact readBlock_of_frame indexed held offset size sound.word

end Restart

/-- In at most 100000 files, the completed appends survive the crashes exactly
when their payloads have a length that the frame holds, and the remains of the
killed appends never look like a frame that passes over the start of a completed
one. -/
theorem crash_recovery_iff {events : List DiskEvent}
    (braced : ∀ payload, .append payload ∈ events → payload.head? = some 123)
    (few : (layoutOf events).full.length < 100000) :
    Recovered events ↔
      (∀ payload, .append payload ∈ events → payload.length < 2 ^ 32) ∧
        ∀ segments ∈ (layoutOf events).files, Unswallowed segments := by
  constructor
  · intro recovered
    refine ⟨?_, ?_⟩
    · intro payload appended
      exact word_of_recovered few recovered appended
    · intro segments member
      exact unswallowed_of_recovered few recovered member
  · rintro ⟨words, clear⟩
    refine recovered_of_unswallowed few ?_ clear
    intro payload appended
    exact ⟨braced payload appended, words payload appended⟩

/-- An append that is killed in its length word does no harm. -/
theorem crash_recovery_torn_length :
    Recovered [.killed [123, 125] 3, .append [123, 125]] ↔
      (∀ payload, .append payload ∈ [DiskEvent.killed [123, 125] 3, .append [123, 125]] →
          payload.length < 2 ^ 32) ∧
        ∀ segments ∈ (layoutOf [.killed [123, 125] 3, .append [123, 125]]).files,
          Unswallowed segments :=
  crash_recovery_iff (by simp) (by decide)

/-- Five bytes of a frame of eight bytes are left behind; with the next frame the
length in them fits, and the scan takes that frame for its end. -/
theorem crash_swallows_frame :
    ¬Recovered [.killed [123, 32, 32, 32, 32, 32, 32, 125] 5, .append [123, 32, 125]] := by
  intro recovered
  obtain ⟨place, indexed, _⟩ := recovered (⟨0, 5, 3⟩, [123, 32, 125]) (by decide)
  have index : (scanExisting (afterEvents [.killed [123, 32, 32, 32, 32, 32, 32, 125] 5,
      .append [123, 32, 125]]).directory).index = [⟨0, 0, 8⟩] := by decide
  rw [index] at indexed
  cases place with
  | zero => cases indexed
  | succ place => cases indexed

end PiSecure
