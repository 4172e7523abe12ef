import MailExpert.ImageCache.Counted

/-!
# What the cache answers

Every file holds the bytes of a `put` of its key and type, or was left behind at start, and a `get` answers the bytes of the file that its
entry names. With the size of the index from `Counted`, this is all the cache promises, in the runs of `Keeps`; the two runs at the end
show what each of its two parts leaves out.
-/

namespace MailExpert.ImageCache

open TransitionSystem

variable {maxBytes : Int} {s s' : State} {l : Label} {name : Name} {bytes : Bytes}

/-- The bytes are a `put`'s of this key and type, or a file's that was there at start. -/
def From (s : State) (name : Name) (bytes : Bytes) : Prop :=
  (∃ put ∈ s.puts, put.key = name.1 ∧ put.image = ⟨bytes, some name.2⟩) ∨ ∃ file, (name, file) ∈ s.leftBehind ∧ file.bytes = bytes

/-- No call of `put` is forgotten. -/
structure Later (s s' : State) : Prop where
  puts : ∀ put ∈ s.puts, ∃ put' ∈ s'.puts, put'.key = put.key ∧ put'.image = put.image
  leftBehind : s'.leftBehind = s.leftBehind

theorem Later.of_eq (hputs : s'.puts = s.puts) (hleft : s'.leftBehind = s.leftBehind) : Later s s' :=
  ⟨fun put hput => ⟨put, hputs ▸ hput, rfl, rfl⟩, hleft⟩

theorem From.later (h : From s name bytes) (hlater : Later s s') : From s' name bytes := by
  obtain ⟨put, hput, hkey, himage⟩ | hleft := h
  · obtain ⟨put', hput', hkey', himage'⟩ := hlater.puts put hput
    exact .inl ⟨put', hput', hkey'.trans hkey, himage'.trans himage⟩
  · exact .inr (hlater.leftBehind ▸ hleft)

theorem later_startPut {key : Key} {image : Image} (hputs : s'.puts = (s.startPut key image).puts) (hleft : s'.leftBehind = s.leftBehind) :
    Later s s' :=
  ⟨fun put hput => ⟨put, hputs ▸ List.mem_append_left _ hput, rfl, rfl⟩, hleft⟩

theorem later_setPut {i : Nat} {put put' : Put} (hput : s.puts[i]? = some put) (hputs : s'.puts = s.puts.set i put')
    (hsame : put'.key = put.key ∧ put'.image = put.image) (hleft : s'.leftBehind = s.leftBehind) : Later s s' := by
  refine ⟨fun other hother => ?_, hleft⟩
  obtain ⟨j, hj⟩ := List.getElem?_of_mem hother
  rw [hputs]
  by_cases hij : i = j
  · subst hij
    cases hput.symm.trans hj
    exact ⟨put', List.mem_of_getElem? ((Agents.getElem?_set_some hput).mpr (.inl ⟨rfl, rfl⟩)), hsame⟩
  · exact ⟨other, List.mem_of_getElem? ((Agents.getElem?_set_some hput).mpr (.inr ⟨hij, hj⟩)), rfl, rfl⟩

/-- A step of a `put` changes its stage only, and the disk only by its own image. -/
theorem Put.step_spec {i : Nat} {put : Put} (hok : put.Ok maxBytes s.ready) (h : put.step maxBytes s i l = some s') :
    (∃ put', s'.puts = s.puts.set i put' ∧ put'.key = put.key ∧ put'.image = put.image) ∧
      (s'.disk = s.disk ∨ ∃ type now, put.image.type = some type ∧ s'.disk = s.disk.set (put.key, type) ⟨put.image.bytes, now⟩) := by
  cases l <;> simp only [Put.step, reduceCtorEq] at h
  case putOpened =>
    split at h
    · split at h
      · split at h <;> cases h <;> exact ⟨⟨_, rfl, rfl, rfl⟩, .inl rfl⟩
      · cases h; exact ⟨⟨_, rfl, rfl, rfl⟩, .inl rfl⟩
    · cases h
  case writeFile => split at h <;> cases h; exact ⟨⟨_, rfl, rfl, rfl⟩, .inl rfl⟩
  case rename =>
    split at h
    next type hstage =>
      split at h <;> cases h
      · exact ⟨⟨_, rfl, rfl, rfl⟩, .inr ⟨type, _, (hok type (.inr (.inl hstage))).2.1, rfl⟩⟩
      · exact ⟨⟨_, rfl, rfl, rfl⟩, .inl rfl⟩
    next => cases h
  case putRenamed => split at h <;> cases h; exact ⟨⟨_, rfl, rfl, rfl⟩, .inl rfl⟩

/-- What a call of `get` has read or answered. -/
def Get.Holds (s : State) (get : Get) : Prop :=
  match get.stage with
  | .read entry (some bytes) => From s (get.key, entry.type) bytes
  | .answered (some (bytes, type)) => From s (get.key, type) bytes
  | _ => True

theorem Get.Holds.later {get : Get} (h : get.Holds s) (hlater : Later s s') : get.Holds s' := by
  unfold Get.Holds at h ⊢
  split
  next hstage => rw [hstage] at h; exact From.later h hlater
  next hstage => rw [hstage] at h; exact From.later h hlater
  next => trivial

/-- Every file and every answer has its source. -/
structure Sources (maxBytes : Int) (s : State) : Prop where
  disk : ∀ name file, (name, file) ∈ s.disk.entries → From s name file.bytes
  gets : ∀ (i : Nat) get, s.gets[i]? = some get → get.Holds s
  puts : ∀ (i : Nat) put, s.puts[i]? = some put → put.Ok maxBytes s.ready

theorem Sources.frame (hs : Sources maxBytes s) (hlater : Later s s') (hdisk : s'.disk = s.disk) (hgets : s'.gets = s.gets)
    (hputs : ∀ (i : Nat) put, s'.puts[i]? = some put → put.Ok maxBytes s'.ready) : Sources maxBytes s' where
  disk name file h := (hs.disk name file (hdisk ▸ h)).later hlater
  gets i get h := (hs.gets i get (hgets ▸ h)).later hlater
  puts := hputs

theorem Sources.setGet (hs : Sources maxBytes s) {i : Nat} {get get' : Get} (hget : s.gets[i]? = some get) (hlater : Later s s')
    (hdisk : s'.disk = s.disk) (hgets : s'.gets = s.gets.set i get') (hholds : get'.Holds s)
    (hputs : ∀ (i : Nat) put, s'.puts[i]? = some put → put.Ok maxBytes s'.ready) : Sources maxBytes s' where
  disk name file h := (hs.disk name file (hdisk ▸ h)).later hlater
  gets j other h := by
    rw [hgets] at h
    obtain ⟨-, rfl⟩ | ⟨-, hsame⟩ := (Agents.getElem?_set_some hget).mp h
    · exact hholds.later hlater
    · exact (hs.gets j other hsame).later hlater
  puts := hputs

theorem Sources.startGet (hs : Sources maxBytes s) {key : Key} (hlater : Later s s') (hdisk : s'.disk = s.disk)
    (hgets : s'.gets = (s.startGet key).gets) (hputs : ∀ (i : Nat) put, s'.puts[i]? = some put → put.Ok maxBytes s'.ready) :
    Sources maxBytes s' where
  disk name file h := (hs.disk name file (hdisk ▸ h)).later hlater
  gets i get h := by
    rw [hgets] at h
    obtain hold | ⟨-, rfl⟩ := Agents.getElem?_append_some.mp h
    · exact (hs.gets i get hold).later hlater
    · unfold Get.Holds
      cases isKey key <;> trivial
  puts := hputs

theorem Get.step_sources {i : Nat} {get : Get} (hs : Sources maxBytes s) (hget : s.gets[i]? = some get) (hlater : Later s s')
    (hputs : ∀ (i : Nat) put, s'.puts[i]? = some put → put.Ok maxBytes s'.ready) (h : get.step s i l = some s') : Sources maxBytes s' := by
  cases l <;> simp only [Get.step, reduceCtorEq] at h
  case getOpened =>
    split at h
    · split at h
      · cases h; exact hs.setGet hget hlater rfl rfl trivial hputs
      · split at h <;> cases h <;> exact hs.setGet hget hlater rfl rfl trivial hputs
    · cases h
  case readFile i ok =>
    split at h <;> cases h
    next entry hstage =>
      refine hs.setGet hget hlater rfl rfl ?_ hputs
      simp only [Get.Holds]
      split
      next heq =>
        obtain ⟨rfl, hbytes⟩ := GetStage.read.inj heq
        cases ok with
        | false => cases hbytes
        | true =>
          obtain ⟨file, hfile, rfl⟩ := Option.map_eq_some_iff.mp hbytes
          exact hs.disk _ file (OrderedMap.get?_eq_some.mp hfile)
      next heq => cases heq
      next => trivial
  case getRead =>
    have hholds := hs.gets i get hget
    split at h <;> cases h
    next entry bytes hstage =>
      rw [Get.Holds, hstage] at hholds
      exact hs.setGet hget hlater rfl rfl hholds hputs
    next => exact hs.setGet hget hlater rfl rfl trivial hputs

theorem sources_step (hs : Sources maxBytes s) (h : step maxBytes s l = some s') : Sources maxBytes s' := by
  have hputs := step_puts hs.puts h
  cases l with
  | clock | clear => cases h; exact hs.frame (.of_eq rfl rfl) rfl rfl hputs
  | get | load => cases h; exact hs.startGet (.of_eq rfl rfl) rfl rfl hputs
  | put => cases h; exact hs.frame (later_startPut rfl rfl) rfl rfl hputs
  | open_ =>
    simp only [step] at h
    split at h
    · cases h
    · split at h <;> cases h <;> exact hs.frame (.of_eq rfl rfl) rfl rfl hputs
  | getOpened i | readFile i | getRead i =>
    obtain ⟨get, hget, hstep⟩ := Option.bind_eq_some_iff.mp h
    obtain ⟨-, hsame, -, hleft⟩ := Get.step_frame hstep
    exact Get.step_sources hs hget (.of_eq hsame hleft) hputs hstep
  | putOpened i | writeFile i | rename i | putRenamed i =>
    obtain ⟨put, hput, hstep⟩ := Option.bind_eq_some_iff.mp h
    obtain ⟨-, hgets, hleft⟩ := Put.step_frame hstep
    obtain ⟨⟨put', hset, hkey, himage⟩, hdisk⟩ := Put.step_spec (hs.puts i put hput) hstep
    have hlater : Later s s' := later_setPut hput hset ⟨hkey, himage⟩ hleft
    obtain hdisk | ⟨type, now, htype, hdisk⟩ := hdisk
    · exact hs.frame hlater hdisk hgets hputs
    · refine ⟨fun name file hfile => ?_, fun j get hget => (hs.gets j get (hgets ▸ hget)).later hlater, hputs⟩
      rw [hdisk] at hfile
      obtain heq | ⟨hold, -⟩ := OrderedMap.mem_set hfile
      · cases heq
        refine From.later (.inl ⟨put, List.mem_of_getElem? hput, rfl, ?_⟩) hlater
        exact htype ▸ rfl
      · exact (hs.disk name file hold).later hlater
  | loadGot | produced | loadPut =>
    obtain ⟨load, -, hstep⟩ := Option.bind_eq_some_iff.mp h
    obtain ⟨-, -, hgets, hdisk, hleft, hsame | ⟨image, hstart⟩⟩ := Load.step_frame hstep
    · exact hs.frame (.of_eq hsame hleft) hdisk hgets hputs
    · exact hs.frame (later_startPut hstart hleft) hdisk hgets hputs
  | clearOpened =>
    simp only [step] at h
    split at h <;> cases h
    exact hs.frame (.of_eq rfl rfl) rfl rfl hputs
  | unlink j ok =>
    obtain ⟨name, -, rfl⟩ := Option.map_eq_some_iff.mp h
    refine ⟨fun name' file hfile => ?_, fun i get hget => (hs.gets i get hget).later (.of_eq rfl rfl), hputs⟩
    cases ok with
    | false => exact (hs.disk name' file hfile).later (.of_eq rfl rfl)
    | true => exact (hs.disk name' file (OrderedMap.mem_delete.mp hfile).1).later (.of_eq rfl rfl)

theorem sources_invariant : (system maxBytes).Invariant anyStep (Sources maxBytes) where
  init := by
    rintro s ⟨disk, rfl⟩
    refine ⟨fun name file h => .inr ⟨file, h, rfl⟩, fun i get h => ?_, fun i put h => ?_⟩
    · simp at h
    · simp at h
  step hs _ h := sources_step hs h

/-- Whatever was left behind and however the calls interleave, the counted bytes are the sizes of the index's entries, a stored image
leaves it within `maxBytes`, an entry that the index lost stays out, and a `get` answers a put's bytes with its type, when every step is
one of `Keeps`; for the answers any step will do. -/
theorem image_cache (maxBytes : Int) :
    (∀ s, (system maxBytes).ReachesUnder Keeps s → s.cache.total = s.cache.held) ∧
    (∀ s, (system maxBytes).ReachesUnder Keeps s → ∀ (i : Nat) s', (system maxBytes).step s (.putRenamed i) = some s' →
      (s'.cache.held : Int) ≤ maxBytes) ∧
    (∀ s, (system maxBytes).ReachesUnder Keeps s → ∀ t, (system maxBytes).Run Keeps s t → ∀ key entry,
      (key, entry) ∈ t.cache.index.entries → (key, entry) ∉ s.cache.index.entries → s.cache.made ≤ entry.id) ∧
    ∀ s, (system maxBytes).Reachable s → ∀ get ∈ s.gets, ∀ bytes type, get.stage = .answered (some (bytes, type)) →
      From s (get.key, type) bytes := by
  refine ⟨fun s hs => (ok_invariant.reachesUnder hs).counted, fun s hs i s' hstep => ?_, fun s hs t ht key entry hin hnot => ?_,
    fun s hs get hget bytes type hstage => ?_⟩
  · have hok := ok_invariant.reachesUnder hs
    obtain ⟨put, type, hput, hstage, hcache⟩ := putRenamed_stores hstep
    rw [hcache]
    exact (Cache.store_spec hok.counted (hok.puts i put hput type (.inr (.inr hstage))).2.2).2.2
  · exact ((comes_run (ok_invariant.reachesUnder hs) ht).entries key entry hin).resolve_left hnot
  · obtain ⟨i, hi⟩ := List.getElem?_of_mem hget
    have hholds := (sources_invariant.reachable hs).gets i get hi
    rw [Get.Holds, hstage] at hholds
    exact hholds

namespace Sample

def key : Key := List.replicate 64 'a'
def fileName (type : ImageType) : Name := (key, type)

theorem nodup_both : ([(fileName .png, (⟨[1], 0⟩ : File)), (fileName .jpeg, ⟨[1, 2], 0⟩)].map Prod.fst).Nodup := by decide

/-- Two files of one key. -/
def both : OrderedMap Name File := ⟨[(fileName .png, ⟨[1], 0⟩), (fileName .jpeg, ⟨[1, 2], 0⟩)], nodup_both⟩

def putThenRead : List Label :=
  [.open_ true [], .put key ⟨[1], some .png⟩, .putOpened 0, .writeFile 0 true, .rename 0 true, .putRenamed 0, .get key, .getOpened 0,
    .readFile 0 true]

instance (s : State) (i : Nat) : Decidable (Keeps s (.getRead i)) :=
  match hget : s.gets[i]? with
  | none => .isTrue fun get h => by simp [hget] at h
  | some get =>
    match hstage : get.stage with
    | .read entry (some _) => decidable_of_iff (s.cache.index.get? get.key = some entry) <| by
        simp only [Keeps, hget, Option.some.injEq, forall_eq', hstage, GetStage.read.injEq, and_imp]
        simp
    | .opening | .reading _ | .read _ none | .answered _ => .isTrue fun get' h entry bytes h' => by
        simp only [hget, Option.some.injEq] at h
        subst h
        simp [hstage] at h'

instance (s : State) (l : Label) : Decidable (Keeps s l) :=
  match l with
  | .open_ _ fails => inferInstanceAs (Decidable ((s.found fails).Pairwise fun a b => a.key = b.key → a.size = 0))
  | .getRead i => inferInstanceAs (Decidable (Keeps s (.getRead i)))
  | .clock _ | .get _ | .getOpened _ | .readFile .. | .put .. | .putOpened _ | .writeFile .. | .rename .. | .putRenamed _ | .load _
  | .loadGot _ | .produced .. | .loadPut _ | .clear | .clearOpened | .unlink .. => .isTrue trivial

end Sample

/-- An image put, read and put back. -/
theorem image_cache_read : ∃ s, (system 8).ReachesUnder Keeps s ∧ s.cache.index.entries.length = 1 ∧ s.cache.total = s.cache.held := by
  have hrun : ((system 8).exec Keeps { disk := .empty, leftBehind := [] } (Sample.putThenRead ++ [.getRead 0])).any
      (fun s => s.cache.index.entries.length = 1) = true := by decide
  obtain ⟨s, hs, hlength⟩ := reaches_of_exec (M := system 8) ⟨.empty, rfl⟩ hrun
  exact ⟨s, hs, of_decide_eq_true hlength, (image_cache 8).1 s hs⟩

/-- Two files of one key are counted twice, and a `get` brings an entry back that `clear` removed while it read. -/
theorem image_cache_drifts :
    (∃ s, (system 8).Reachable s ∧ s.cache.total ≠ s.cache.held) ∧
      ∃ s t, (system 8).Reachable s ∧ (system 8).Run anyStep s t ∧ s.cache.index.entries = [] ∧ s.cache.made = 1 ∧
        t.cache.made = 1 ∧ t.cache.index.entries.length = 1 ∧ t.cache.total = 0 ∧ t.cache.held = 1 := by
  constructor
  · have hrun : ((system 8).exec anyStep { disk := Sample.both, leftBehind := Sample.both.entries } [.open_ true []]).any
        (fun s => s.cache.total ≠ s.cache.held) = true := by decide
    obtain ⟨s, hs, hdrift⟩ := reaches_of_exec (M := system 8) ⟨Sample.both, rfl⟩ hrun
    exact ⟨s, hs, of_decide_eq_true hdrift⟩
  · have hcleared : ((system 8).exec anyStep { disk := .empty, leftBehind := [] } (Sample.putThenRead ++ [.clear, .clearOpened])).any
        (fun s => s.cache.index.entries = [] ∧ s.cache.made = 1 ∧ ((system 8).exec anyStep s [.getRead 0]).any
          (fun t => t.cache.made = 1 ∧ t.cache.index.entries.length = 1 ∧ t.cache.total = 0 ∧ t.cache.held = 1) = true) = true := by decide
    obtain ⟨s, hs, hback⟩ := reaches_of_exec (M := system 8) ⟨.empty, rfl⟩ hcleared
    obtain ⟨hempty, hmade, hback⟩ := of_decide_eq_true hback
    obtain ⟨t, ht, hdrift⟩ := run_of_exec_any hback
    exact ⟨s, t, hs, ht, hempty, hmade, of_decide_eq_true hdrift⟩

end MailExpert.ImageCache
