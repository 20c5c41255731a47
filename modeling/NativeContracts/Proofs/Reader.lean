import NativeContracts.Proofs.Grammar

/-! Reading by position. `run` reads what `decode` reads, one item a step; it keeps a position
in the data and the compound items that it is inside of. Every subtraction, slice and look-up
it makes is checked, and one that leaves its range stops the run for a reason that no fault
has. A run finds the item that `decode` finds, or stops at the same fault. -/

namespace NativeContracts.Item.Reader

open VarInt

/-! ## A reader that checks its operations -/

def refuse {α : Type} (cause : EncodingFault) : Checked α := .error (.fault (.encoding cause))

def subtract (n m : Nat) : Checked Nat := if m ≤ n then .ok (n - m) else .error .outOfRange

def slice (bytes : List UInt8) (start stop : Nat) : Checked (List UInt8) :=
  if start ≤ stop ∧ stop ≤ bytes.length then .ok ((bytes.take stop).drop start)
  else .error .outOfRange

def byteAt (bytes : List UInt8) (index : Nat) : Checked UInt8 :=
  match bytes[index]? with
  | some byte => .ok byte
  | none => .error .outOfRange

/-- `count` bytes from `index` on, looked up one by one. -/
def bytesAt (bytes : List UInt8) (index : Nat) : Nat → Checked (List UInt8)
  | 0 => .ok []
  | count + 1 => do
    let byte ← byteAt bytes index
    let rest ← bytesAt bytes (index + 1) count
    return byte :: rest

section

variable (limits : Limits) (data : List UInt8) (position : Nat)

def remaining : Checked Nat := subtract data.length position

/-- The position moves only over a slice that is in range. -/
def takeBytes (count : Nat) : Checked (List UInt8 × Nat) := do
  let available ← remaining data position
  if available < count then refuse (.endOfData count available)
  else
    let bytes ← slice data position (position + count)
    return (bytes, position + count)

def takeByte : Checked (UInt8 × Nat) := do
  let (bytes, position) ← takeBytes data position 1
  let byte ← byteAt bytes 0
  return (byte, position)

/-- The length that `first` begins. -/
def takeDigits (first : UInt8) : Checked (Nat × Nat) :=
  match extraBytes first with
  | 0 => .ok (first.toNat, position)
  | extra => do
    let (bytes, position) ← takeBytes data position extra
    let digits ← bytesAt bytes 0 extra
    return (LittleEndian.decode digits, position)

def takeLength (max : Nat) : Checked (Nat × Nat) := do
  let (first, position) ← takeByte data position
  let (length, position) ← takeDigits data position first
  if max < length then refuse (.lengthTooLarge length max) else return (length, position)

def takePayload (max : Nat) : Checked (List UInt8 × Nat) := do
  let (length, position) ← takeLength data position max
  takeBytes data position length

/-- What a marker and the bytes after it announce. -/
inductive Head where
  | leaf (item : Item)
  | compound (kind : Kind) (count : Nat)

def takeHead (allowance : Nat) : Checked (Head × Nat) := do
  let (marker, position) ← takeByte data position
  match Kind.ofMarker? marker with
  | none => refuse (.unknownMarker marker)
  | some .any => return (.leaf null, position)
  | some .boolean =>
    let (byte, position) ← takeByte data position
    if byte = 0 then return (.leaf (boolean false), position)
    else if byte = 1 then return (.leaf (boolean true), position)
    else refuse (.notBoolean byte)
  | some .integer =>
    let (digits, position) ← takePayload data position limits.maxIntegerSize
    return (.leaf (integer (TwosComplement.decode digits)), position)
  | some .byteString =>
    let (content, position) ← takePayload data position limits.maxItemSize
    return (.leaf (byteString content), position)
  | some .buffer =>
    let (content, position) ← takePayload data position limits.maxItemSize
    return (.leaf (buffer content), position)
  | some .array =>
    let (count, position) ← takeLength data position allowance
    return (.compound .array count, position)
  | some .struct =>
    let (count, position) ← takeLength data position allowance
    return (.compound .struct count, position)

end

/-- A compound item that is not complete: `later` items come after the one being read, and
`done` holds those before it, the last one first. -/
structure Opened where
  kind : Kind
  later : Nat
  done : List Item

/-- The innermost of the compound items comes first. -/
inductive Phase where
  | reading (opened : List Opened)
  | finished (item : Item)

structure State where
  position : Nat
  allowance : Nat
  phase : Phase

def compound (kind : Kind) (items : List Item) : Item :=
  if kind = .array then array items else struct items

/-- Puts an item where it belongs. One that completes a compound item moves that one too. -/
def settle (item : Item) : List Opened → Phase
  | [] => .finished item
  | ⟨kind, 0, done⟩ :: outer => settle (compound kind (item :: done).reverse) outer
  | ⟨kind, later + 1, done⟩ :: outer => .reading (⟨kind, later, item :: done⟩ :: outer)

def Head.place : Head → List Opened → Phase
  | .leaf item, opened => settle item opened
  | .compound kind 0, opened => settle (Reader.compound kind []) opened
  | .compound kind (count + 1), opened => .reading (⟨kind, count, []⟩ :: opened)

def start (limits : Limits) : State := ⟨0, limits.maxStackSize, .reading []⟩

/-- Reads one item, without the items inside it. -/
def advance (limits : Limits) (data : List UInt8) (position allowance : Nat)
    (opened : List Opened) : Checked State :=
  if allowance = 0 then refuse (.tooManyItems limits.maxStackSize)
  else do
    let allowance ← subtract allowance 1
    let (head, position) ← takeHead limits data position allowance
    return ⟨position, allowance, head.place opened⟩

def finish (data : List UInt8) (position : Nat) (item : Item) : Checked Item :=
  if position = data.length then .ok item
  else do
    -- How many bytes are left goes into the log.
    let _ ← remaining data position
    refuse .trailingBytes

theorem advance_succ (limits : Limits) (data : List UInt8) (position allowance : Nat)
    (opened : List Opened) :
    advance limits data position (allowance + 1) opened =
      takeHead limits data position allowance >>= fun found =>
        .ok ⟨found.2, allowance, found.1.place opened⟩ := rfl

theorem advance_allowance {limits : Limits} {data : List UInt8} {position allowance : Nat}
    {opened : List Opened} {next : State}
    (h : advance limits data position allowance opened = .ok next) :
    next.allowance + 1 = allowance := by
  rcases allowance with _ | allowance
  · cases h
  · rw [advance_succ] at h
    obtain ⟨found, -, h⟩ := bind_eq_ok_iff.mp h
    cases h
    rfl

/-- Each step spends one of the allowance. -/
def run (limits : Limits) (data : List UInt8) : State → Checked Item
  | ⟨position, _, .finished item⟩ => finish data position item
  | ⟨position, allowance, .reading opened⟩ =>
    match _h : advance limits data position allowance opened with
    | .error stop => .error stop
    | .ok next => run limits data next
termination_by state => state.allowance
decreasing_by exact Nat.lt_of_succ_le (Nat.le_of_eq (advance_allowance _h))

variable {limits : Limits} {data : List UInt8} {position allowance depth count : Nat}

theorem run_finished (item : Item) :
    run limits data ⟨position, allowance, .finished item⟩ = finish data position item := by
  rw [run]

theorem run_reading (opened : List Opened) :
    run limits data ⟨position, allowance, .reading opened⟩ =
      advance limits data position allowance opened >>= run limits data := by
  rw [run]
  split
  · next h => rw [h]; rfl
  · next h => rw [h]; rfl

/-! ## Agreement with the reader that has no position -/

/-- The same fault, or the same value with the bytes that are left. Those are what stands
behind the position, which is in the data and not before `least`. -/
inductive Agrees {α : Type} (data : List UInt8) (least : Nat) :
    Checked (α × Nat) → Except Fault (α × List UInt8) → Prop where
  | fault (cause : Fault) : Agrees data least (.error (.fault cause)) (.error cause)
  | found (a : α) {position : Nat} (hleast : least ≤ position) (hend : position ≤ data.length) :
      Agrees data least (.ok (a, position)) (.ok (a, data.drop position))

namespace Agrees

variable {α β : Type} {least : Nat} {x : Checked (α × Nat)} {y : Except Fault (α × List UInt8)}

theorem mono {earlier : Nat} (h : Agrees data least x y) (hle : earlier ≤ least) :
    Agrees data earlier x y := by
  cases h with
  | fault cause => exact .fault cause
  | found a hleast hend => exact .found a (Nat.le_trans hle hleast) hend

theorem bind {f : α × Nat → Checked (β × Nat)}
    {g : α × List UInt8 → Except Fault (β × List UInt8)} (h : Agrees data least x y)
    (hnext : ∀ a position, position ≤ data.length →
      Agrees data position (f (a, position)) (g (a, data.drop position))) :
    Agrees data least (x >>= f) (y >>= g) := by
  cases h with
  | fault cause => exact .fault cause
  | found a hleast hend => exact (hnext a _ hend).mono hleast

theorem ne_outOfRange (h : Agrees data least x y) : x ≠ .error .outOfRange := by
  cases h with
  | fault cause => simp
  | found a hleast hend => simp

theorem within {a : α} (h : Agrees data least (.ok (a, position)) y) :
    least ≤ position ∧ position ≤ data.length := by
  cases h with
  | found a hleast hend => exact ⟨hleast, hend⟩

end Agrees

theorem bytesAt_eq {bytes : List UInt8} {index : Nat} (h : index + count = bytes.length) :
    bytesAt bytes index count = .ok (bytes.drop index) := by
  induction count generalizing index with
  | zero =>
    rw [bytesAt, List.drop_of_length_le]
    exact Nat.le_of_eq h.symm
  | succ count ih =>
    have hindex : index < bytes.length := by omega
    rw [bytesAt, byteAt, List.getElem?_eq_getElem hindex, ih (by omega),
      List.drop_eq_getElem_cons hindex]
    rfl

theorem takeBytes_of_le (h : position + count ≤ data.length) :
    takeBytes data position count = .ok ((data.drop position).take count, position + count) := by
  rw [takeBytes, remaining, subtract, if_pos (by omega), slice, if_pos (by omega), List.drop_take,
    Nat.add_sub_cancel_left]
  exact if_neg (by omega)

theorem takeBytes_of_lt (hend : position ≤ data.length) (h : data.length < position + count) :
    takeBytes data position count = refuse (.endOfData count (data.length - position)) := by
  rw [takeBytes, remaining, subtract, if_pos hend]
  exact if_pos (by omega)

theorem agrees_takeBytes (hend : position ≤ data.length) :
    Agrees data position (takeBytes data position count)
      (splitBytes count (data.drop position)) := by
  rw [splitBytes_eq, List.length_drop]
  rcases Nat.lt_or_ge data.length (position + count) with h | h
  · rw [takeBytes_of_lt hend h, if_neg (by omega)]
    exact .fault _
  · rw [takeBytes_of_le h, if_pos (by omega), List.drop_drop]
    exact .found _ (Nat.le_add_right _ _) h

theorem agrees_takeByte (hend : position ≤ data.length) :
    Agrees data (position + 1) (takeByte data position) (readByte (data.drop position)) := by
  rcases Nat.lt_or_eq_of_le hend with h | rfl
  · rw [takeByte, takeBytes_of_le h, List.drop_eq_getElem_cons h]
    exact .found _ (Nat.le_refl _) h
  · rw [takeByte, takeBytes_of_lt hend (Nat.lt_succ_self _), List.drop_length, Nat.sub_self]
    exact .fault _

/-- The length that `first` begins, from the bytes after it. -/
def readDigits (first : UInt8) (bytes : List UInt8) : Except Fault (Nat × List UInt8) :=
  match extraBytes first with
  | 0 => .ok (first.toNat, bytes)
  | extra => splitBytes extra bytes >>= fun found => .ok (LittleEndian.decode found.1, found.2)

theorem read_eq_readDigits (max : Nat) (bytes : List UInt8) :
    VarInt.read max bytes =
      readByte bytes >>= fun found => readDigits found.1 found.2 >>= fun found =>
        if max < found.1 then .error (.encoding (.lengthTooLarge found.1 max)) else .ok found := by
  rcases bytes with _ | ⟨first, rest⟩
  · rfl
  simp only [VarInt.read, readByte, readDigits, bind, Except.bind, pure, Except.pure]
  rcases extraBytes first with _ | extra
  · simp only
    split <;> rfl
  · simp only
    rcases splitBytes (extra + 1) rest with fault | found
    · rfl
    · simp only
      split <;> rfl

theorem agrees_takeDigits (first : UInt8) (hend : position ≤ data.length) :
    Agrees data position (takeDigits data position first)
      (readDigits first (data.drop position)) := by
  rw [takeDigits, readDigits]
  rcases extraBytes first with _ | extra
  · exact .found _ (Nat.le_refl _) hend
  rcases Nat.lt_or_ge data.length (position + (extra + 1)) with h | h
  · simp only [takeBytes_of_lt hend h, splitBytes_eq, List.length_drop]
    rw [if_neg (by omega)]
    exact .fault _
  · have hlength : ((data.drop position).take (extra + 1)).length = extra + 1 := by
      rw [List.length_take_of_le]
      rw [List.length_drop]
      omega
    have hdigits := bytesAt_eq ((Nat.zero_add _).trans hlength.symm)
    simp only [takeBytes_of_le h, splitBytes_eq, List.length_drop, bind, Except.bind, hdigits]
    rw [if_pos (by omega), List.drop_drop]
    exact .found _ (Nat.le_add_right _ _) h

theorem agrees_takeLength (max : Nat) (hend : position ≤ data.length) :
    Agrees data (position + 1) (takeLength data position max)
      (VarInt.read max (data.drop position)) := by
  rw [read_eq_readDigits]
  refine (agrees_takeByte hend).bind fun first position hend => ?_
  refine (agrees_takeDigits first hend).bind fun length position hend => ?_
  dsimp only
  split
  · exact .fault _
  · exact .found _ (Nat.le_refl _) hend

theorem agrees_takePayload (max : Nat) (hend : position ≤ data.length) :
    Agrees data (position + 1) (takePayload data position max)
      (readBytes max (data.drop position)) :=
  (agrees_takeLength max hend).bind fun _ _ hend => agrees_takeBytes hend

/-- The head of an item at the front of the bytes. -/
def readHead (limits : Limits) (allowance : Nat) (bytes : List UInt8) :
    Except Fault (Head × List UInt8) :=
  readByte bytes >>= fun (marker, bytes) =>
    match Kind.ofMarker? marker with
    | none => .error (.encoding (.unknownMarker marker))
    | some .any => .ok (.leaf null, bytes)
    | some .boolean => readByte bytes >>= fun (byte, bytes) =>
      if byte = 0 then .ok (.leaf (boolean false), bytes)
      else if byte = 1 then .ok (.leaf (boolean true), bytes)
      else .error (.encoding (.notBoolean byte))
    | some .integer => readBytes limits.maxIntegerSize bytes >>= fun (digits, bytes) =>
      .ok (.leaf (integer (TwosComplement.decode digits)), bytes)
    | some .byteString => readBytes limits.maxItemSize bytes >>= fun (content, bytes) =>
      .ok (.leaf (byteString content), bytes)
    | some .buffer => readBytes limits.maxItemSize bytes >>= fun (content, bytes) =>
      .ok (.leaf (buffer content), bytes)
    | some .array => VarInt.read allowance bytes >>= fun (count, bytes) =>
      .ok (.compound .array count, bytes)
    | some .struct => VarInt.read allowance bytes >>= fun (count, bytes) =>
      .ok (.compound .struct count, bytes)

theorem agrees_takeHead (hend : position ≤ data.length) :
    Agrees data (position + 1) (takeHead limits data position allowance)
      (readHead limits allowance (data.drop position)) := by
  refine (agrees_takeByte hend).bind fun marker position hend => ?_
  dsimp only
  have hsucc := Nat.le_succ position
  rcases Kind.ofMarker? marker with _ | kind
  · exact .fault _
  cases kind with
  | any => exact .found _ (Nat.le_refl _) hend
  | boolean =>
    refine ((agrees_takeByte hend).mono hsucc).bind fun byte position hend => ?_
    dsimp only
    split
    · exact .found _ (Nat.le_refl _) hend
    · split
      · exact .found _ (Nat.le_refl _) hend
      · exact .fault _
  | integer | byteString | buffer =>
    exact ((agrees_takePayload _ hend).mono hsucc).bind fun _ _ hend =>
      .found _ (Nat.le_refl _) hend
  | array | struct =>
    exact ((agrees_takeLength _ hend).mono hsucc).bind fun _ _ hend =>
      .found _ (Nat.le_refl _) hend

/-- The items that a head leaves to read, and the item that they complete. -/
def readInside (limits : Limits) (depth allowance : Nat) :
    Head × List UInt8 → Except Fault (Item × Nat × List UInt8)
  | (.leaf item, bytes) => .ok (item, allowance, bytes)
  | (.compound kind count, bytes) =>
    readMany (read limits depth) count [] allowance bytes >>= fun found =>
      .ok (compound kind found.1, found.2)

theorem read_succ (bytes : List UInt8) :
    read limits (depth + 1) (allowance + 1) bytes =
      readHead limits allowance bytes >>= readInside limits depth allowance := by
  rcases bytes with _ | ⟨marker, bytes⟩
  · rfl
  rcases hkind : Kind.ofMarker? marker with _ | kind
  · simp only [read, readHead, readByte, bind, Except.bind, hkind]
    rfl
  obtain rfl := Kind.ofMarker?_eq_some_iff.mp hkind
  cases kind with
  | any => rfl
  | boolean =>
    rcases bytes with _ | ⟨byte, bytes⟩
    · rfl
    rw [read_boolean]
    simp only [readHead, readByte, bind, Except.bind, hkind]
    split
    · rfl
    · split <;> rfl
  | integer | byteString | buffer | array | struct =>
    simp only [read, readHead, readByte, bind, Except.bind, hkind]
    split <;> rfl

/-! ## A run finds what decoding finds -/

/-- How a run goes on when one more item has been read. -/
def resume (limits : Limits) (data : List UInt8) (opened : List Opened) :
    Except Fault (Item × Nat × List UInt8) → Checked Item
  | .error cause => .error (.fault cause)
  | .ok (item, allowance, rest) =>
    run limits data ⟨data.length - rest.length, allowance, settle item opened⟩

theorem resume_ok (item : Item) (opened : List Opened) (hend : position ≤ data.length) :
    resume limits data opened (.ok (item, allowance, data.drop position)) =
      run limits data ⟨position, allowance, settle item opened⟩ := by
  rw [resume, List.length_drop, Nat.sub_sub_self hend]

/-- An item inside a compound one and all that come after it there, if every single item is
read as `read` reads it. -/
theorem run_readMany {kind : Kind} {outer : List Opened}
    (hone : ∀ position allowance opened, allowance ≤ depth → position ≤ data.length →
      run limits data ⟨position, allowance, .reading opened⟩ =
        resume limits data opened (read limits depth allowance (data.drop position)))
    (done : List Item) (hdepth : allowance ≤ depth) (hend : position ≤ data.length) :
    run limits data ⟨position, allowance, .reading (⟨kind, count, done⟩ :: outer)⟩ =
      resume limits data outer
        (readMany (read limits depth) (count + 1) done allowance (data.drop position) >>=
          fun found => .ok (compound kind found.1, found.2)) := by
  induction count generalizing position allowance done with
  | zero =>
    rw [hone _ _ _ hdepth hend, readMany]
    rcases read limits depth allowance (data.drop position) with fault | ⟨item, left, rest⟩
    · rfl
    · rfl
  | succ count ih =>
    rw [hone _ _ _ hdepth hend, readMany]
    rcases hread : read limits depth allowance (data.drop position) with fault | ⟨item, left, rest⟩
    · rfl
    -- What is left is a part of the data, so it stands behind a position in them.
    obtain ⟨form, -, hleft, hform⟩ := storedAs_of_read hdepth hread
    obtain rfl : rest = data.drop (position + form.length) := by
      rw [← List.drop_drop, hform, List.drop_left]
    have hbehind : position + form.length ≤ data.length := by
      have hlength := congrArg List.length hform
      rw [List.length_append, List.length_drop] at hlength
      omega
    rw [resume_ok _ _ hbehind]
    exact ih (item :: done) (by omega) hbehind

theorem run_read (opened : List Opened) (hdepth : allowance ≤ depth)
    (hend : position ≤ data.length) :
    run limits data ⟨position, allowance, .reading opened⟩ =
      resume limits data opened (read limits depth allowance (data.drop position)) := by
  -- A run has no depth to count down; the allowance, which it has, is never more than the depth.
  induction depth generalizing position allowance opened with
  | zero =>
    obtain rfl := Nat.le_zero.mp hdepth
    rw [run_reading]
    rfl
  | succ depth ih =>
    rcases allowance with _ | allowance
    · rw [run_reading]
      rfl
    replace hdepth := Nat.le_of_succ_le_succ hdepth
    rw [run_reading, advance_succ, read_succ]
    have hhead : Agrees data (position + 1) (takeHead limits data position allowance)
        (readHead limits allowance (data.drop position)) := agrees_takeHead hend
    generalize takeHead limits data position allowance = taken at hhead ⊢
    generalize readHead limits allowance (data.drop position) = found at hhead ⊢
    cases hhead with
    | fault cause => rfl
    | @found head position hleast hend =>
      match head with
      | .leaf item => exact (resume_ok item opened hend).symm
      | .compound kind 0 => exact (resume_ok (compound kind []) opened hend).symm
      | .compound kind (count + 1) =>
        exact run_readMany (fun _ _ opened => ih opened) [] hdepth hend

/-- The same item, or the same fault. -/
theorem run_start : run limits data (start limits) = (decode limits data).mapError .fault := by
  rw [start, run_read [] (Nat.le_refl _) (Nat.zero_le _), List.drop_zero, decode]
  rcases hread : read limits limits.maxStackSize limits.maxStackSize data with
    fault | ⟨item, left, rest⟩
  · rfl
  obtain ⟨form, -, -, rfl⟩ := storedAs_of_read (Nat.le_refl _) hread
  rw [resume, settle, run_finished, finish]
  rcases rest with _ | ⟨byte, rest⟩
  · exact if_pos rfl
  · rw [if_neg, remaining, subtract, if_pos (Nat.sub_le _ _)]
    · rfl
    · simp only [List.length_append, List.length_cons]
      omega

end NativeContracts.Item.Reader
