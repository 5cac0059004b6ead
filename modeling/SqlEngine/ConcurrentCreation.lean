import SqlEngine.Library.Replay
import SqlEngine.TableRecovery

/-! Several processes that create a table of one name. The one whose open made the file has
the name to itself until it has won or has given the name up again. -/
namespace SqlEngine

open Library Program World Posix

variable {faults : Faults} {tableName : Bytes} {path journal : Path} {w u v : World}

/-- A name that stands for no file. -/
def NameFree (path : Path) (w : World) : Prop := w.file path = none

/-- The statuses of a creation that did not make the table. -/
def Lost (status : TableCreateStatus) : Prop := status = .alreadyExists ∨ status = .ioError

/-- A creation that returned success, and the empty table it made. -/
def Won (path : Path) (status : TableCreateStatus) (w : World) : Prop :=
  status = .ok ∧ ∃ file, w.file path = some file ∧ file.bytes = headerBytes 0

private theorem won_taken (status : TableCreateStatus) (w : World) (won : Won path status w) :
    ¬ NameFree path w := by
  obtain ⟨_, file, found, _⟩ := won
  rw [NameFree, found]
  exact Option.some_ne_none file

private theorem finishCreate_holds (made : Bool) (taken : ¬ NameFree path v)
    (finished : made = true → ∃ file, v.file path = some file ∧ file.bytes = headerBytes 0) :
    Holds (Steps faults) (NameFree path) Lost (Won path) (finishCreate path made) v := by
  -- The end of a creation leaves a table that is made as it is, and gives up the name of one
  -- that is not with its last call.
  cases made with
  | true => exact .inr ⟨rfl, finished rfl⟩
  | false => exact ⟨taken, fun _ _ _ => .inl (.inr rfl)⟩

private theorem storageCreateTable_enters (valid : storageValidTableName tableName = true) :
    Enters (Steps faults) (NameFree (tablePath tableName)) Lost (Won (tablePath tableName))
      (storageCreateTable tableName) := by
  have parts := storageValidTableName_parts valid
  rw [storageCreateTable_eq valid]
  refine ⟨.openFile (tablePath tableName) true,
    afterCreate (tablePath tableName) (journalPath tableName), rfl, ?_⟩
  intro state reply after did
  -- What the open may have come to.
  have opening : wp (Steps faults) (fun _ => True) (openFile (tablePath tableName) true >>=
      Program.pure)
      (fun reply v => (∃ errno, reply = .error errno ∧ v = state) ∨ reply = .ok state.next ∧
        state.file (tablePath tableName) = none ∧
        v = (state.rebind (tablePath tableName) (some emptyFile)).opened
          (tablePath tableName)) state := by
    refine wp_createFile trivial (fun free => ?_) (fun _ => ?_) fun _ error _ => ?_
    · exact ⟨trivial, .inr ⟨rfl, free, rfl⟩⟩
    · exact ⟨trivial, .inl ⟨_, rfl, rfl⟩⟩
    · exact ⟨trivial, .inl ⟨error, rfl, rfl⟩⟩
  rcases (wp_returns opening (.call did .pure)).2 with ⟨errno, rfl, rfl⟩ | ⟨rfl, free, rfl⟩
  · refine .inl ⟨rfl, ?_⟩
    by_cases exists_already : errno = .eexist
    · exact ⟨.alreadyExists, if_pos exists_already, .inl rfl⟩
    · exact ⟨.ioError, if_neg exists_already, .inr rfl⟩
  · refine .inr ⟨free, ?_⟩
    have filled : wp (Steps faults) _
        (createInto state.next (tablePath tableName) (journalPath tableName)) _ _ :=
      createInto_spec (tablePath_noSlash parts) (journalPath_ne_tablePath tableName)
        (Making.opened free)
        (Nat.le_refl _) (file_rebind ..) (streams_setStream ..)
    have held := wp_mono filled (fun v underway => Option.isSome_iff_ne_none.mp underway.2)
      fun _ _ _ finished => finished
    refine holds_bind held fun made v taken finished => finishCreate_holds made taken fun ok => ?_
    subst ok
    exact finished

private theorem creation_racing {calls : List (Prog TableCreateStatus)} {n : Nat}
    (valid : storageValidTableName tableName = true)
    (run : Interleaved (Steps faults) (List.replicate n (storageCreateTable tableName), w)
      (calls, v)) :
    Racing (Steps faults) (NameFree (tablePath tableName)) Lost (Won (tablePath tableName))
      (calls, v) := by
  refine Racing.run won_taken (.nobody fun call member => ?_) run
  rw [List.eq_of_mem_replicate member]
  exact .inl (storageCreateTable_enters valid)

/-- However many processes create a table of one name, and in whatever order their calls
come and fail, at most one of them wins. Behind it nothing changes any more, and the table
is empty. Where the table was there before, it stays as it was. -/
theorem concurrent_creation {calls : List (Prog TableCreateStatus)} {n : Nat}
    (valid : storageValidTableName tableName = true)
    (run : Interleaved (Steps .any) (List.replicate n (storageCreateTable tableName), w)
      (calls, v)) :
    (∀ i j : Nat, calls[i]? = some (.pure .ok) → calls[j]? = some (.pure .ok) → i = j) ∧
      (.pure .ok ∈ calls →
        (∃ file, v.file (tablePath tableName) = some file ∧ file.bytes = headerBytes 0 ∧
          acceptedCount file.bytes = .ok 0) ∧
        ∀ later u, Interleaved (Steps .any) (calls, v) (later, u) → u = v) ∧
      ((w.file (tablePath tableName)).isSome = true →
        v = w ∧ ∀ status, .pure status ∈ calls → status = .alreadyExists ∨ status = .ioError) := by
  have racing := creation_racing valid run
  have stands : ¬ Lost .ok := by
    rintro (wrong | wrong)
    · cases wrong
    · cases wrong
  refine ⟨fun i j one two => racing.unique one stands two stands, fun member => ?_,
    fun present => ?_⟩
  · obtain ⟨i, ended⟩ := List.getElem?_of_mem member
    obtain ⟨⟨_, file, found, image⟩, others⟩ := racing.winner ended stands
    refine ⟨⟨file, found, image, image ▸ acceptedCount_blank⟩, fun later u run => ?_⟩
    have taken : ¬ NameFree (tablePath tableName) v := by
      rw [NameFree, found]
      exact Option.some_ne_none file
    have idle : ∀ call ∈ calls,
        Outside (Steps .any) (NameFree (tablePath tableName)) Lost
          (Won (tablePath tableName)) call ∨
          ∃ status, call = .pure status := by
      intro call member
      obtain ⟨j, there⟩ := List.getElem?_of_mem member
      by_cases same : j = i
      · subst same
        exact .inr ⟨_, Option.some.inj (there.symm.trans ended)⟩
      · exact .inl (others j same call there)
    exact (settled_run taken idle run).1
  · have taken : ¬ NameFree (tablePath tableName) w := Option.isSome_iff_ne_none.mp present
    have idle : ∀ call ∈ List.replicate n (storageCreateTable tableName),
        Outside (Steps .any) (NameFree (tablePath tableName)) Lost
          (Won (tablePath tableName)) call := by
      intro call member
      rw [List.eq_of_mem_replicate member]
      exact .inl (storageCreateTable_enters valid)
    obtain ⟨same, each⟩ := settled_run taken (fun call member => .inl (idle call member)) run
    refine ⟨same, fun status member => ?_⟩
    rcases each _ member with old | ⟨value, ended, gone⟩
    · exact (idle _ old).pure_lost
    · cases ended
      exact gone

/-- Two creations: one opens the file, the other finds it, and then the first finishes. -/
private def raced : List (Prog TableCreateStatus) × World :=
  turned .any ((0, {}) :: (1, {}) :: List.replicate 19 (0, {}))
    (List.replicate 2 (storageCreateTable (str "t")), World.empty)

/-- A race of two processes with a winner. -/
theorem concurrent_creation_raced :
    ∃ calls v, Interleaved (Steps .any)
      (List.replicate 2 (storageCreateTable (str "t")), World.empty) (calls, v) ∧
      calls[0]? = some (.pure .ok) ∧ calls[1]? = some (.pure .alreadyExists) ∧
      (∃ file, v.file (tablePath (str "t")) = some file ∧ file.bytes = headerBytes 0 ∧
        acceptedCount file.bytes = .ok 0) ∧
      ∀ later u, Interleaved (Steps .any) (calls, v) (later, u) → u = v := by
  obtain ⟨⟨calls, v⟩, ran, statuses⟩ : ∃ race,
      Interleaved (Steps .any) (List.replicate 2 (storageCreateTable (str "t")), World.empty) race ∧
        race.1.map value? = [some .ok, some .alreadyExists] :=
          ⟨raced, turned_interleaved, by decide +kernel⟩
  have ended : ∀ (i : Nat) status, (calls.map value?)[i]? = some (some status) →
      calls[i]? = some (.pure status) := by
    intro i status found
    rw [List.getElem?_map] at found
    obtain ⟨call, there, value⟩ := Option.map_eq_some_iff.mp found
    rw [there, value?_eq value]
  have first : calls[0]? = some (.pure .ok) := ended 0 _ (congrArg (·[0]?) statuses)
  have second : calls[1]? = some (.pure .alreadyExists) := ended 1 _ (congrArg (·[1]?) statuses)
  exact ⟨calls, v, ran, first, second,
    (concurrent_creation (by decide) ran).2.1 (List.mem_of_getElem? first)⟩

end SqlEngine
