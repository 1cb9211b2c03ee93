import ChunkTree.Config.Error

namespace ChunkTree

/-- Named files and folders, in the order in which they came. -/
inductive Directory where
  | empty
  | file (name : Text) (bytes : ByteArray) (rest : Directory)
  | folder (name : Text) (inner rest : Directory)

inductive Entry where
  | file (bytes : ByteArray)
  | folder (inner : Directory)

def Entry.named (name : Text) (rest : Directory) : Entry → Directory
  | file bytes => .file name bytes rest
  | folder inner => .folder name inner rest

namespace Directory

def isHere (name : Text) : Bool := name.isEmpty || name == ['.']

def isUp (name : Text) : Bool := name == ['.', '.']

def find? (name : Text) : Directory → Option Entry
  | empty => none
  | file other bytes rest => if other = name then some (.file bytes) else rest.find? name
  | folder other inner rest => if other = name then some (.folder inner) else rest.find? name

/-- An entry takes the place of the one that has its name. -/
def set (name : Text) (e : Entry) : Directory → Directory
  | empty => e.named name .empty
  | file other bytes rest =>
    if other = name then e.named name rest else .file other bytes (rest.set name e)
  | folder other inner rest =>
    if other = name then e.named name rest else .folder other inner (rest.set name e)

theorem find?_named_self (name : Text) (rest : Directory) (e : Entry) :
    (e.named name rest).find? name = some e := by
  cases e <;> simp [Entry.named, find?]

theorem find?_named_of_ne {other name : Text} (h : other ≠ name) (rest : Directory) (e : Entry) :
    (e.named other rest).find? name = rest.find? name := by
  cases e <;> simp [Entry.named, find?, h]

theorem find?_set_self (name : Text) (e : Entry) (d : Directory) :
    (d.set name e).find? name = some e := by
  induction d with
  | empty => exact find?_named_self name .empty e
  | file other bytes rest ih =>
    by_cases h : other = name
    · simp [set, h, find?_named_self]
    · simp [set, find?, h, ih]
  | folder other inner rest _ ih =>
    by_cases h : other = name
    · simp [set, h, find?_named_self]
    · simp [set, find?, h, ih]

theorem find?_set_of_ne {other name : Text} (h : other ≠ name) (e : Entry) (d : Directory) :
    (d.set other e).find? name = d.find? name := by
  induction d with
  | empty => exact find?_named_of_ne h .empty e
  | file third bytes rest ih =>
    by_cases ht : third = other
    · simp [set, find?, ht, h, find?_named_of_ne h]
    · simp [set, find?, ht, ih]
  | folder third inner rest _ ih =>
    by_cases ht : third = other
    · simp [set, find?, ht, h, find?_named_of_ne h]
    · simp [set, find?, ht, ih]

def inner (name : Text) (d : Directory) : Directory :=
  match d.find? name with
  | some (.folder below) => below
  | _ => .empty

/-- Puts an entry below the folders that its names lead through, and makes those that are missing. -/
def put (e : Entry) : List Text → Directory → Directory
  | [], d => d
  | [name], d => d.set name e
  | name :: rest, d => d.set name (.folder ((d.inner name).put e rest))

def splitPath : Text → List Text
  | [] => [[]]
  | c :: t =>
    if c = '/' then [] :: splitPath t
    else
      match splitPath t with
      | [] => [[c]]
      | name :: rest =>
        (c :: name) :: rest

def joinPath (names : List Text) : Text := ['/'].intercalate names

/-- Steps taken from the directory, last one first, each with what it leads to. What lies above the
directory is named by steps up and holds only what is written there. -/
abbrev Trail := List (Text × Option Entry)

def Trail.target? (d : Directory) : Trail → Option Entry
  | [] => some (.folder d)
  | (_, e) :: _ => e

def Trail.names (t : Trail) : List Text := (t.map Prod.fst).reverse

/-- One step up from a folder. At the top it goes on to the folder above. -/
def Trail.up (here : Directory) : Trail → Trail
  | [] => [(['.', '.'], some (.folder (here.inner ['.', '.'])))]
  | (name, e) :: above =>
    if isUp name then (['.', '.'], some (.folder (here.inner ['.', '.']))) :: (name, e) :: above
    else above

def nameLimit : Nat := 255

def pathLimit : Nat := 4095

def follow (d : Directory) (trail : Trail) : List Text → Except FileError Trail
  | [] => .ok trail
  | step :: rest =>
    match trail.target? d with
    | none => .error .notFound
    | some (.file _) => .error .notDirectory
    | some (.folder here) =>
      if isHere step then d.follow trail rest
      else if isUp step then d.follow (trail.up here) rest
      else if nameLimit < step.byteLength then .error .nameTooLong
      else d.follow ((step, here.find? step) :: trail) rest

/-- The steps of a path. The root is taken to lie right above the directory. -/
def pathSteps (path : Text) : List Text :=
  if path.head? == some '/' then ['.', '.'] :: splitPath path else splitPath path

def usableSteps (path : Text) : Except FileError (List Text) :=
  if path.contains '\x00' then .error .unusableName
  else if path.isEmpty then .error .notFound
  else if pathLimit < path.byteLength then .error .nameTooLong
  else .ok (pathSteps path)

def resolve (d : Directory) (path : Text) : Except FileError Trail := do
  d.follow [] (← usableSteps path)

def readBytes (d : Directory) (path : Text) : Except FileError ByteArray := do
  match (← d.resolve path).target? d with
  | some (.file bytes) => .ok bytes
  | some (.folder _) => .error .isDirectory
  | none => .error .notFound

def decode (bytes : ByteArray) : Except FileError Text :=
  match String.fromUTF8? bytes with
  | some s => .ok s.toList
  | none => .error .notText

def encode (t : Text) : ByteArray := (String.ofList t).toUTF8

def read (d : Directory) (path : Text) : Except FileError Text := do decode (← d.readBytes path)

def makeFolder (d : Directory) (path : Text) : Except FileError Directory := do
  let trail ← d.resolve path
  match trail.target? d with
  | some _ => .error .alreadyExists
  | none => .ok (d.put (.folder .empty) trail.names)

def leadsToFolder (d : Directory) (path : Text) : Bool :=
  match d.resolve path with
  | .ok trail =>
    match trail.target? d with
    | some (.folder _) => true
    | _ => false
  | .error _ => false

/-- The path of a folder whose steps are given last one first. Steps that stay where they are count
in it only where others follow them. -/
def folderPath (steps : List Text) : Text := joinPath (steps.dropWhile isHere).reverse

def parentSteps (path : Text) : List Text := ((splitPath path).reverse.dropWhile isHere).tail

def endsInSlash (path : Text) : Bool := path.getLast? == some '/'

def stepsAbove (steps : List Text) : List Text := (steps.reverse.dropWhile List.isEmpty).tail.reverse

/-- A path that ends in a slash names a folder, whatever is there. -/
def writeFile (d : Directory) (path : Text) (bytes : ByteArray) : Except FileError Directory := do
  let steps ← usableSteps path
  if endsInSlash path then
    let _ ← d.follow [] (stepsAbove steps ++ [['.']])
    throw .isDirectory
  let trail ← d.follow [] steps
  match trail.target? d with
  | some (.folder _) => throw .isDirectory
  | _ => return d.put (.file bytes) trail.names

end Directory
end ChunkTree
