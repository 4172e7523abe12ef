import MailExpert.Lib.Agents
import MailExpert.Lib.OrderedMap
import MailExpert.Lib.TransitionSystem

/-!
# The image cache

`services/imageCache.js`: the index and the counted bytes of one cache, the files of its directory, and the calls of `get`, `put`, `load`
and `clear` under way, each stopped at one of its awaits. A label is what runs between two awaits, or what the file system did for one of
them: a read, a write or a rename, which may fail, and the removals that nobody waits for.

An index entry is an object of its own, so each gets a number when it is made. `maxBytes` counts as its floor, whole numbers only being
compared with it. The remembered failures (`failure`, `fail`) touch neither index nor files.
-/

namespace MailExpert.ImageCache

abbrev Bytes := List UInt8
abbrev Key := List Char

def MAX_AGE_MS : Nat := 30 * 24 * 60 * 60 * 1000

/-- `KEY` -/
def isKey (key : Key) : Bool := key.length = 64 && key.all fun c => ('0' ≤ c && c ≤ '9') || ('a' ≤ c && c ≤ 'f')

/-- The keys of `EXTENSIONS`. -/
inductive ImageType
  | png | jpeg | gif | webp | avif | bmp | xIcon
  deriving DecidableEq

/-- What is stored or answered; the type of an image to store may be one without an extension. -/
structure Image where
  bytes : Bytes
  type : Option ImageType
  deriving DecidableEq

/-- A value of the index. -/
structure Entry where
  id : Nat
  type : ImageType
  size : Nat
  stored : Nat
  deriving DecidableEq

/-- A file's name: `fileOf`. -/
abbrev Name := Key × ImageType

structure File where
  bytes : Bytes
  mtimeMs : Nat
  deriving DecidableEq

/-- What `open` reads of one file. -/
structure Found where
  key : Key
  type : ImageType
  size : Nat
  stored : Nat
  deriving DecidableEq

structure Cache where
  index : OrderedMap Key Entry := .empty
  total : Int := 0
  /-- How many entries were made. -/
  made : Nat := 0
  /-- The removals under way. -/
  unlinks : List Name := []
  deriving DecidableEq

namespace Cache

variable (c : Cache)

def forget (key : Key) : Cache :=
  match c.index.get? key with
  | none => c
  | some entry => { c with index := c.index.delete key, total := c.total - entry.size, unlinks := c.unlinks ++ [(key, entry.type)] }

/-- `while (total > maxBytes && index.size > least) forget(…)`, which goes round at most `fuel` times. -/
def evict (maxBytes : Int) (least : Nat) : Nat → Cache → Cache
  | 0, c => c
  | fuel + 1, c =>
    if maxBytes < c.total ∧ least < c.index.entries.length then
      match c.index.oldest with
      | none => c
      | some key => evict maxBytes least fuel (c.forget key)
    else c

def evictAll (maxBytes : Int) (least : Nat) : Cache := evict maxBytes least c.index.entries.length c

/-- One file of `open`. -/
def add (f : Found) : Cache :=
  { c with index := c.index.set f.key ⟨c.made, f.type, f.size, f.stored⟩, total := c.total + f.size, made := c.made + 1 }

/-- The rest of `open` after the files were found. -/
def openWith (maxBytes : Int) (found : List Found) : Cache := (found.foldl add c).evictAll maxBytes 0

/-- `index.delete(key); index.set(key, entry)` of `get`. -/
def putBack (key : Key) (entry : Entry) : Cache := { c with index := (c.index.delete key).set key entry }

/-- The old entry of `put`, whose file is left only when its type is another. -/
def dropOld (key : Key) (type : ImageType) : Cache :=
  match c.index.get? key with
  | none => c
  | some old =>
    { c with
      index := c.index.delete key
      total := c.total - old.size
      unlinks := if old.type ≠ type then c.unlinks ++ [(key, old.type)] else c.unlinks }

/-- The rest of `put` after the file has its name. -/
def store (maxBytes : Int) (now : Nat) (key : Key) (type : ImageType) (bytes : Bytes) : Cache :=
  ((c.dropOld key type).add ⟨key, type, bytes.length, now⟩).evictAll maxBytes 1

/-- `for (const key of [...index.keys()]) forget(key)` -/
def forgetAll : Cache := (c.index.entries.map Prod.fst).foldl forget c

end Cache

/-! ## The calls -/

inductive GetStage
  | opening
  | reading (entry : Entry)
  /-- The read ended, with the file's bytes unless it failed. -/
  | read (entry : Entry) (bytes : Option Bytes)
  | answered (image : Option (Bytes × ImageType))
  deriving DecidableEq

structure Get where
  key : Key
  stage : GetStage
  deriving DecidableEq

inductive PutStage
  | opening
  | writing (type : ImageType)
  | renaming (type : ImageType)
  | renamed (type : ImageType)
  | finished
  deriving DecidableEq

structure Put where
  key : Key
  image : Image
  stage : PutStage
  deriving DecidableEq

/-- How far a call of `load` is; its `get` and its `put` are calls of their own. -/
inductive LoadStage
  | getting (get : Nat)
  /-- It waits for the work of another call. -/
  | pending
  | producing
  | putting (put : Nat)
  | finished
  deriving DecidableEq

structure Load where
  key : Key
  stage : LoadStage
  deriving DecidableEq

structure State where
  now : Nat := 0
  /-- `open` has run. -/
  ready : Bool := false
  disabled : Bool := false
  cache : Cache := {}
  disk : OrderedMap Name File
  /-- The files that were there at start. -/
  leftBehind : List (Name × File)
  gets : List Get := []
  puts : List Put := []
  loads : List Load := []
  /-- The keys of `inFlight`. -/
  inFlight : List Key := []
  /-- The calls of `clear` that wait for `open`. -/
  clears : Nat := 0
  deriving DecidableEq

namespace State

variable (s : State)

/-- What `open` finds, oldest first, when `stat` fails for some files. -/
def found (fails : List Name) : List Found :=
  ((s.disk.entries.filter fun e => isKey e.1.1 && !fails.contains e.1).map fun e =>
    (⟨e.1.1, e.1.2, e.2.bytes.length, e.2.mtimeMs⟩ : Found)).insertionSort fun a b => a.stored ≤ b.stored

def setGet (i : Nat) (get : Get) : State := { s with gets := s.gets.set i get }
def setPut (i : Nat) (put : Put) : State := { s with puts := s.puts.set i put }
def setLoad (i : Nat) (load : Load) : State := { s with loads := s.loads.set i load }

def startGet (key : Key) : State := { s with gets := s.gets ++ [⟨key, if isKey key then .opening else .answered none⟩] }
def startPut (key : Key) (image : Image) : State := { s with puts := s.puts ++ [⟨key, image, if isKey key then .opening else .finished⟩] }

/-- `inFlight.delete(key)` -/
def landed (key : Key) : State := { s with inFlight := s.inFlight.filter (· ≠ key) }

end State

inductive Label
  | clock (ms : Nat)
  /-- `open`, which fails when the directory cannot be read. -/
  | open_ (ok : Bool) (fails : List Name)
  | get (key : Key)
  | getOpened (get : Nat)
  | readFile (get : Nat) (ok : Bool)
  | getRead (get : Nat)
  | put (key : Key) (image : Image)
  | putOpened (put : Nat)
  | writeFile (put : Nat) (ok : Bool)
  | rename (put : Nat) (ok : Bool)
  | putRenamed (put : Nat)
  | load (key : Key)
  | loadGot (load : Nat)
  /-- `produce` ended, with the image unless it failed. -/
  | produced (load : Nat) (image : Option Image)
  | loadPut (load : Nat)
  | clear
  | clearOpened
  | unlink (removal : Nat) (ok : Bool)

def Get.step (s : State) (i : Nat) (get : Get) : Label → Option State
  | .getOpened _ =>
    if get.stage = .opening ∧ s.ready then
      match s.cache.index.get? get.key with
      | none => some (s.setGet i { get with stage := .answered none })
      | some entry =>
        if entry.stored + MAX_AGE_MS < s.now then
          some ({ s with cache := s.cache.forget get.key }.setGet i { get with stage := .answered none })
        else some (s.setGet i { get with stage := .reading entry })
    else none
  | .readFile _ ok =>
    match get.stage with
    | .reading entry =>
      let bytes := if ok then (s.disk.get? (get.key, entry.type)).map File.bytes else none
      some (s.setGet i { get with stage := .read entry bytes })
    | _ => none
  | .getRead _ =>
    match get.stage with
    | .read entry (some bytes) =>
      some ({ s with cache := s.cache.putBack get.key entry }.setGet i { get with stage := .answered (some (bytes, entry.type)) })
    | .read _ none => some ({ s with cache := s.cache.forget get.key }.setGet i { get with stage := .answered none })
    | _ => none
  | _ => none

def Put.step (maxBytes : Int) (s : State) (i : Nat) (put : Put) : Label → Option State
  | .putOpened _ =>
    if put.stage = .opening ∧ s.ready then
      match put.image.type with
      | some type =>
        if s.disabled ∨ maxBytes < 8 * put.image.bytes.length then some (s.setPut i { put with stage := .finished })
        else some (s.setPut i { put with stage := .writing type })
      | none => some (s.setPut i { put with stage := .finished })
    else none
  | .writeFile _ ok =>
    match put.stage with
    | .writing type => some (s.setPut i { put with stage := if ok then .renaming type else .finished })
    | _ => none
  | .rename _ ok =>
    match put.stage with
    | .renaming type =>
      if ok then
        some ({ s with disk := s.disk.set (put.key, type) ⟨put.image.bytes, s.now⟩ }.setPut i { put with stage := .renamed type })
      else some (s.setPut i { put with stage := .finished })
    | _ => none
  | .putRenamed _ =>
    match put.stage with
    | .renamed type =>
      some ({ s with cache := s.cache.store maxBytes s.now put.key type put.image.bytes }.setPut i { put with stage := .finished })
    | _ => none
  | _ => none

def Load.step (s : State) (i : Nat) (load : Load) : Label → Option State
  | .loadGot _ =>
    match load.stage with
    | .getting get =>
      match s.gets[get]?.map Get.stage with
      | some (.answered (some _)) => some (s.setLoad i { load with stage := .finished })
      | some (.answered none) =>
        if s.inFlight.contains load.key then some (s.setLoad i { load with stage := .pending })
        else some ({ s with inFlight := s.inFlight ++ [load.key] }.setLoad i { load with stage := .producing })
      | _ => none
    | _ => none
  | .produced _ image =>
    if load.stage = .producing then
      match image with
      | none => some ((s.landed load.key).setLoad i { load with stage := .finished })
      | some image => some ((s.startPut load.key image).setLoad i { load with stage := .putting s.puts.length })
    else none
  | .loadPut _ =>
    match load.stage with
    | .putting put =>
      if s.puts[put]?.any (fun p => p.stage = .finished) then some ((s.landed load.key).setLoad i { load with stage := .finished }) else none
    | _ => none
  | _ => none

def step (maxBytes : Int) (s : State) : Label → Option State
  | .clock ms => some { s with now := s.now + ms }
  | .open_ ok fails =>
    if s.ready then none
    else if ok then some { s with ready := true, cache := s.cache.openWith maxBytes (s.found fails) }
    else some { s with ready := true, disabled := true }
  | .get key => some (s.startGet key)
  | .getOpened i => s.gets[i]?.bind fun get => get.step s i (.getOpened i)
  | .readFile i ok => s.gets[i]?.bind fun get => get.step s i (.readFile i ok)
  | .getRead i => s.gets[i]?.bind fun get => get.step s i (.getRead i)
  | .put key image => some (s.startPut key image)
  | .putOpened i => s.puts[i]?.bind fun put => put.step maxBytes s i (.putOpened i)
  | .writeFile i ok => s.puts[i]?.bind fun put => put.step maxBytes s i (.writeFile i ok)
  | .rename i ok => s.puts[i]?.bind fun put => put.step maxBytes s i (.rename i ok)
  | .putRenamed i => s.puts[i]?.bind fun put => put.step maxBytes s i (.putRenamed i)
  | .load key => some { s.startGet key with loads := s.loads ++ [⟨key, .getting s.gets.length⟩] }
  | .loadGot i => s.loads[i]?.bind fun load => load.step s i (.loadGot i)
  | .produced i image => s.loads[i]?.bind fun load => load.step s i (.produced i image)
  | .loadPut i => s.loads[i]?.bind fun load => load.step s i (.loadPut i)
  | .clear => some { s with clears := s.clears + 1 }
  | .clearOpened => if 0 < s.clears ∧ s.ready then some { s with clears := s.clears - 1, cache := s.cache.forgetAll } else none
  | .unlink j ok =>
    s.cache.unlinks[j]?.map fun name =>
      { s with
        cache := { s.cache with unlinks := s.cache.unlinks.eraseIdx j }
        disk := if ok then s.disk.delete name else s.disk }

/-- A cache of at most `maxBytes` over a directory with any files. -/
def system (maxBytes : Int) : TransitionSystem State Label where
  init s := ∃ disk : OrderedMap Name File, s = { disk, leftBehind := disk.entries }
  step := step maxBytes

end MailExpert.ImageCache
