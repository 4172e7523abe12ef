import MailExpert.ImageCache.Cache

/-!
# The cache inside its size

Each operation on the index keeps the counted bytes equal to the sizes of its entries, and brings in no entry but a new one
(`Cache.Comes`), with two exceptions: `open` over several files of one key, and a `get` that puts back an entry that is the index's no
more. In the runs without these, every stored image leaves the index within `maxBytes`. What a `get` answers is a put's in every run.
-/

namespace MailExpert.ImageCache

open TransitionSystem

variable {maxBytes : Int} {least : Nat} {c c' : Cache} {key : Key} {s s' : State} {l : Label}

namespace Cache

def held (c : Cache) : Nat := c.index.sum Entry.size

def Counted (c : Cache) : Prop := c.total = c.held

structure Comes (c c' : Cache) : Prop where
  made : c.made ≤ c'.made
  entries : ∀ key entry, (key, entry) ∈ c'.index.entries → (key, entry) ∈ c.index.entries ∨ c.made ≤ entry.id

theorem Comes.refl (c : Cache) : Comes c c := ⟨le_rfl, fun _ _ h => .inl h⟩

theorem Comes.trans {c₁ c₂ c₃ : Cache} (h₁ : Comes c₁ c₂) (h₂ : Comes c₂ c₃) : Comes c₁ c₃ where
  made := h₁.made.trans h₂.made
  entries key entry h := by
    obtain hin | hnew := h₂.entries key entry h
    · exact h₁.entries key entry hin
    · exact .inr (h₁.made.trans hnew)

theorem Comes.of_sub (hmade : c'.made = c.made) (h : ∀ e ∈ c'.index.entries, e ∈ c.index.entries) : Comes c c' :=
  ⟨hmade.ge, fun _ _ he => .inl (h _ he)⟩

theorem forget_of_none (h : c.index.get? key = none) : c.forget key = c := by simp [forget, h]

theorem forget_of_some {entry : Entry} (h : c.index.get? key = some entry) :
    c.forget key = { c with index := c.index.delete key, total := c.total - entry.size, unlinks := c.unlinks ++ [(key, entry.type)] } := by
  simp [forget, h]

theorem forget_counted (hc : c.Counted) : (c.forget key).Counted := by
  cases h : c.index.get? key with
  | none => rwa [forget_of_none h]
  | some entry =>
    have hsum := OrderedMap.sum_delete (f := Entry.size) h
    rw [forget_of_some h]
    simp only [Counted, held] at hc ⊢
    omega

theorem forget_comes : Comes c (c.forget key) := by
  cases h : c.index.get? key with
  | none => rw [forget_of_none h]; exact .refl c
  | some entry =>
    rw [forget_of_some h]
    exact .of_sub rfl fun e he => (OrderedMap.mem_delete.mp he).1

/-- What the loop of evictions leaves: the last entries of the index, few enough or small enough. -/
structure Evicted (maxBytes : Int) (least : Nat) (c r : Cache) : Prop where
  counted : c.Counted → r.Counted
  comes : Comes c r
  suffix : r.index.entries <:+ c.index.entries
  least_le : min least c.index.entries.length ≤ r.index.entries.length
  done : r.total ≤ maxBytes ∨ r.index.entries.length ≤ least

theorem evict_spec (fuel : Nat) (hfuel : c.index.entries.length ≤ fuel) : Evicted maxBytes least c (evict maxBytes least fuel c) := by
  induction fuel generalizing c with
  | zero =>
    have hempty : c.index.entries.length = 0 := by omega
    exact ⟨id, .refl c, List.suffix_refl _, min_le_right _ _, .inr (by simp only [evict]; omega)⟩
  | succ fuel ih =>
    simp only [evict]
    split
    next hmore =>
      split
      next hnone =>
        rw [OrderedMap.oldest_eq_none] at hnone
        simp [hnone] at hmore
      next key hold =>
        obtain ⟨entry, hentry⟩ := OrderedMap.get?_oldest hold
        have hentries : (c.forget key).index.entries = c.index.entries.tail := by
          rw [forget_of_some hentry]
          exact OrderedMap.entries_delete_oldest hold
        have hlength : (c.forget key).index.entries.length = c.index.entries.length - 1 := by rw [hentries, List.length_tail]
        obtain ⟨hcounted, hcomes, hsuffix, hleast, hdone⟩ := @ih (c.forget key) (by omega)
        refine ⟨fun hc => hcounted (forget_counted hc), forget_comes.trans hcomes, hsuffix.trans (hentries ▸ List.tail_suffix _), ?_, hdone⟩
        omega
    next hdone =>
      refine ⟨id, .refl c, List.suffix_refl _, min_le_right _ _, ?_⟩
      by_cases htotal : maxBytes < c.total
      · exact .inr (by omega)
      · exact .inl (by omega)

theorem evictAll_spec : Evicted maxBytes least c (c.evictAll maxBytes least) := evict_spec _ le_rfl

theorem add_comes {f : Found} : Comes c (c.add f) where
  made := Nat.le_succ _
  entries key entry h := by
    obtain heq | ⟨hin, -⟩ := OrderedMap.mem_set h
    · cases heq
      exact .inr le_rfl
    · exact .inl hin

/-- A file whose key has no entry, or one of an empty file. -/
theorem add_counted {f : Found} (hc : c.Counted) (hold : ∀ old, c.index.get? f.key = some old → old.size = 0) : (c.add f).Counted := by
  simp only [Counted, held, add] at hc ⊢
  cases h : c.index.get? f.key with
  | none =>
    rw [OrderedMap.sum_set_of_none h]
    push_cast
    omega
  | some old =>
    have hsum := OrderedMap.sum_set_of_some (f := Entry.size) (v := ⟨c.made, f.type, f.size, f.stored⟩) h
    have := hold old h
    simp only at hsum
    omega

theorem foldl_add_spec {found : List Found} (hc : c.Counted) (hpairs : found.Pairwise fun a b => a.key = b.key → a.size = 0)
    (hold : ∀ f ∈ found, ∀ old, c.index.get? f.key = some old → old.size = 0) :
    (found.foldl add c).Counted ∧ Comes c (found.foldl add c) := by
  induction found generalizing c with
  | nil => exact ⟨hc, .refl c⟩
  | cons f found ih =>
    obtain ⟨hfirst, hrest⟩ := List.pairwise_cons.mp hpairs
    have hadded : ∀ f' ∈ found, ∀ old, (c.add f).index.get? f'.key = some old → old.size = 0 := fun f' hf' old hget => by
      obtain heq | ⟨hin, -⟩ := OrderedMap.mem_set (OrderedMap.get?_eq_some.mp hget)
      · obtain ⟨hkey, rfl⟩ := Prod.mk.inj heq
        exact hfirst f' hf' hkey.symm
      · exact hold f' (List.mem_cons_of_mem _ hf') old (OrderedMap.get?_eq_some.mpr hin)
    obtain ⟨hcounted, hcomes⟩ := ih (add_counted hc (hold f List.mem_cons_self)) hrest hadded
    exact ⟨hcounted, add_comes.trans hcomes⟩

theorem dropOld_spec {type : ImageType} (hc : c.Counted) :
    (c.dropOld key type).Counted ∧ Comes c (c.dropOld key type) ∧ (c.dropOld key type).index.get? key = none := by
  simp only [dropOld]
  split
  next h => exact ⟨hc, .refl c, h⟩
  next old h =>
    have hsum := OrderedMap.sum_delete (f := Entry.size) h
    refine ⟨?_, .of_sub rfl fun e he => (OrderedMap.mem_delete.mp he).1, OrderedMap.get?_delete_self⟩
    simp only [Counted, held] at hc ⊢
    omega

/-- An image that passed the check of its size leaves the index within the bound. -/
theorem store_spec {now : Nat} {type : ImageType} {bytes : Bytes} (hc : c.Counted) (hsize : 8 * (bytes.length : Int) ≤ maxBytes) :
    (c.store maxBytes now key type bytes).Counted ∧ Comes c (c.store maxBytes now key type bytes) ∧
      ((c.store maxBytes now key type bytes).held : Int) ≤ maxBytes := by
  obtain ⟨hcounted, hcomes, habsent⟩ := @dropOld_spec _ key type hc
  have hadd := add_counted (f := ⟨key, type, bytes.length, now⟩) hcounted fun old hold => by rw [habsent] at hold; cases hold
  have hevicted := @evictAll_spec maxBytes 1 ((c.dropOld key type).add ⟨key, type, bytes.length, now⟩)
  have hcounted' : (c.store maxBytes now key type bytes).Counted := hevicted.counted hadd
  refine ⟨hcounted', (hcomes.trans add_comes).trans hevicted.comes, ?_⟩
  obtain hfits | hlast := hevicted.done
  · exact hcounted' ▸ hfits
  · -- one entry is left, the last one: the new one
    have hentries : ((c.dropOld key type).add ⟨key, type, bytes.length, now⟩).index.entries =
        (c.dropOld key type).index.entries ++ [(key, ⟨(c.dropOld key type).made, type, bytes.length, now⟩)] :=
      OrderedMap.entries_set_of_none habsent
    obtain ⟨front, hfront⟩ := hevicted.suffix
    have hleast := hevicted.least_le
    rw [hentries, List.length_append, List.length_singleton] at hleast
    rw [hentries] at hfront
    obtain ⟨-, hone⟩ := List.append_inj' hfront (by rw [List.length_singleton]; omega)
    have hheld : (c.store maxBytes now key type bytes).held = bytes.length := by
      simp only [held, OrderedMap.sum, store, hone, List.map_cons, List.map_nil, List.sum_cons, List.sum_nil, Nat.add_zero]
    omega

/-- An entry that is still the index's goes to the end of the order. -/
theorem putBack_spec {entry : Entry} (hc : c.Counted) (hsame : c.index.get? key = some entry) :
    (c.putBack key entry).Counted ∧ Comes c (c.putBack key entry) := by
  have hsum := OrderedMap.sum_delete (f := Entry.size) hsame
  have hset := OrderedMap.sum_set_of_none (f := Entry.size) (v := entry) (OrderedMap.get?_delete_self (m := c.index) (k := key))
  refine ⟨?_, .of_sub rfl fun e he => ?_⟩
  · simp only [Counted, held, putBack] at hc ⊢
    omega
  · obtain rfl | ⟨hin, -⟩ := OrderedMap.mem_set he
    · exact OrderedMap.get?_eq_some.mp hsame
    · exact (OrderedMap.mem_delete.mp hin).1

theorem foldl_forget_spec {keys : List Key} (hc : c.Counted) : (keys.foldl forget c).Counted ∧ Comes c (keys.foldl forget c) := by
  induction keys generalizing c with
  | nil => exact ⟨hc, .refl c⟩
  | cons key keys ih =>
    obtain ⟨hcounted, hcomes⟩ := @ih (c.forget key) (forget_counted hc)
    exact ⟨hcounted, forget_comes.trans hcomes⟩

end Cache

/-! ## One step -/

/-- What a step does to the cache. -/
inductive Moves (maxBytes : Int) (s : State) (l : Label) (s' : State) : Prop
  | same (hindex : s'.cache.index = s.cache.index) (htotal : s'.cache.total = s.cache.total) (hmade : s'.cache.made = s.cache.made)
  | opened (fails : List Name) (hl : l = .open_ true fails) (h : s'.cache = s.cache.openWith maxBytes (s.found fails))
  | forgot (key : Key) (h : s'.cache = s.cache.forget key)
  | putBack (i : Nat) (get : Get) (entry : Entry) (bytes : Bytes) (hl : l = .getRead i) (hget : s.gets[i]? = some get)
      (hstage : get.stage = .read entry (some bytes)) (h : s'.cache = s.cache.putBack get.key entry)
  | stored (i : Nat) (put : Put) (type : ImageType) (hl : l = .putRenamed i) (hput : s.puts[i]? = some put)
      (hstage : put.stage = .renamed type) (h : s'.cache = s.cache.store maxBytes s.now put.key type put.image.bytes)
  | cleared (hready : s.ready = true) (h : s'.cache = s.cache.forgetAll)

theorem Moves.of_eq (h : s'.cache = s.cache) : Moves maxBytes s l s' := .same (by rw [h]) (by rw [h]) (by rw [h])

theorem Get.step_frame {i : Nat} {get : Get} (h : get.step s i l = some s') :
    s'.ready = s.ready ∧ s'.puts = s.puts ∧ s'.disk = s.disk ∧ s'.leftBehind = s.leftBehind := by
  cases l <;> simp only [Get.step, reduceCtorEq] at h
  case getOpened =>
    split at h
    · split at h
      · cases h; exact ⟨rfl, rfl, rfl, rfl⟩
      · split at h <;> cases h <;> exact ⟨rfl, rfl, rfl, rfl⟩
    · cases h
  case readFile => split at h <;> cases h; exact ⟨rfl, rfl, rfl, rfl⟩
  case getRead => split at h <;> cases h <;> exact ⟨rfl, rfl, rfl, rfl⟩

theorem Put.step_frame {i : Nat} {put : Put} (h : put.step maxBytes s i l = some s') :
    s'.ready = s.ready ∧ s'.gets = s.gets ∧ s'.leftBehind = s.leftBehind := by
  cases l <;> simp only [Put.step, reduceCtorEq] at h
  case putOpened =>
    split at h
    · split at h
      · split at h <;> cases h <;> exact ⟨rfl, rfl, rfl⟩
      · cases h; exact ⟨rfl, rfl, rfl⟩
    · cases h
  case writeFile => split at h <;> cases h; exact ⟨rfl, rfl, rfl⟩
  case rename =>
    split at h
    · split at h <;> cases h <;> exact ⟨rfl, rfl, rfl⟩
    · cases h
  case putRenamed => split at h <;> cases h; exact ⟨rfl, rfl, rfl⟩

/-- A call of `load` moves nothing but itself, but for the `put` it begins. -/
theorem Load.step_frame {i : Nat} {load : Load} (h : load.step s i l = some s') :
    s'.ready = s.ready ∧ s'.cache = s.cache ∧ s'.gets = s.gets ∧ s'.disk = s.disk ∧ s'.leftBehind = s.leftBehind ∧
      (s'.puts = s.puts ∨ ∃ image, s'.puts = (s.startPut load.key image).puts) := by
  cases l <;> simp only [Load.step, reduceCtorEq] at h
  case loadGot =>
    split at h
    · split at h
      · cases h; exact ⟨rfl, rfl, rfl, rfl, rfl, .inl rfl⟩
      · split at h <;> cases h <;> exact ⟨rfl, rfl, rfl, rfl, rfl, .inl rfl⟩
      · cases h
    · cases h
  case produced =>
    split at h
    · split at h <;> cases h
      · exact ⟨rfl, rfl, rfl, rfl, rfl, .inl rfl⟩
      · exact ⟨rfl, rfl, rfl, rfl, rfl, .inr ⟨_, rfl⟩⟩
    · cases h
  case loadPut =>
    split at h
    · split at h <;> cases h
      exact ⟨rfl, rfl, rfl, rfl, rfl, .inl rfl⟩
    · cases h

/-- The last step of a `put` whose file has its name. -/
theorem putRenamed_stores {i : Nat} (h : step maxBytes s (.putRenamed i) = some s') :
    ∃ put type, s.puts[i]? = some put ∧ put.stage = .renamed type ∧
      s'.cache = s.cache.store maxBytes s.now put.key type put.image.bytes := by
  obtain ⟨put, hput, hstep⟩ := Option.bind_eq_some_iff.mp h
  simp only [Put.step] at hstep
  split at hstep
  next type hstage => cases hstep; exact ⟨put, type, hput, hstage, rfl⟩
  next => cases hstep

theorem step_moves (h : step maxBytes s l = some s') : Moves maxBytes s l s' := by
  cases l with
  | clock | get | put | load | clear => cases h; exact .of_eq rfl
  | open_ ok fails =>
    simp only [step] at h
    split at h
    · cases h
    · split at h <;> cases h
      next hok => exact .opened fails (by rw [hok]) rfl
      next => exact .of_eq rfl
  | getOpened i =>
    obtain ⟨get, hget, hstep⟩ := Option.bind_eq_some_iff.mp h
    simp only [Get.step] at hstep
    split at hstep
    · split at hstep
      · cases hstep; exact .of_eq rfl
      · split at hstep <;> cases hstep
        · exact .forgot get.key rfl
        · exact .of_eq rfl
    · cases hstep
  | readFile i ok =>
    obtain ⟨get, hget, hstep⟩ := Option.bind_eq_some_iff.mp h
    simp only [Get.step] at hstep
    split at hstep <;> cases hstep
    exact .of_eq rfl
  | getRead i =>
    obtain ⟨get, hget, hstep⟩ := Option.bind_eq_some_iff.mp h
    simp only [Get.step] at hstep
    split at hstep
    next entry bytes hstage => cases hstep; exact .putBack i get entry bytes rfl hget hstage rfl
    next => cases hstep; exact .forgot get.key rfl
    next => cases hstep
  | putOpened i =>
    obtain ⟨put, hput, hstep⟩ := Option.bind_eq_some_iff.mp h
    simp only [Put.step] at hstep
    split at hstep
    · split at hstep
      · split at hstep <;> cases hstep <;> exact .of_eq rfl
      · cases hstep; exact .of_eq rfl
    · cases hstep
  | writeFile i ok =>
    obtain ⟨put, hput, hstep⟩ := Option.bind_eq_some_iff.mp h
    simp only [Put.step] at hstep
    split at hstep <;> cases hstep
    exact .of_eq rfl
  | rename i ok =>
    obtain ⟨put, hput, hstep⟩ := Option.bind_eq_some_iff.mp h
    simp only [Put.step] at hstep
    split at hstep
    · split at hstep <;> cases hstep <;> exact .of_eq rfl
    · cases hstep
  | putRenamed i =>
    obtain ⟨put, type, hput, hstage, hcache⟩ := putRenamed_stores h
    exact .stored i put type rfl hput hstage hcache
  | loadGot | produced | loadPut =>
    obtain ⟨load, -, hstep⟩ := Option.bind_eq_some_iff.mp h
    exact .of_eq (Load.step_frame hstep).2.1
  | clearOpened =>
    simp only [step] at h
    split at h
    next hc => cases h; exact .cleared hc.2 rfl
    next => cases h
  | unlink j ok =>
    obtain ⟨name, -, rfl⟩ := Option.map_eq_some_iff.mp h
    exact .same rfl rfl rfl

/-- An image on its way to the index passed the check of its size. -/
def Put.Ok (maxBytes : Int) (ready : Bool) (put : Put) : Prop :=
  ∀ type, put.stage = .writing type ∨ put.stage = .renaming type ∨ put.stage = .renamed type →
    ready = true ∧ put.image.type = some type ∧ 8 * (put.image.bytes.length : Int) ≤ maxBytes

/-- The image that a call puts, and how it stands, after a step: as it was, begun, or one stage on. -/
theorem step_puts (hs : ∀ (i : Nat) put, s.puts[i]? = some put → put.Ok maxBytes s.ready) (h : step maxBytes s l = some s') :
    ∀ (i : Nat) put, s'.puts[i]? = some put → put.Ok maxBytes s'.ready := by
  have hstart : ∀ (key : Key) (image : Image) (i : Nat) put, (s.startPut key image).puts[i]? = some put → put.Ok maxBytes s.ready := fun key image i put hput => by
    obtain hold | ⟨-, rfl⟩ := Agents.getElem?_append_some.mp hput
    · exact hs i put hold
    · intro type hstage
      cases hkey : isKey key <;> simp [hkey] at hstage
  have hset : ∀ {i : Nat} {was put' : Put}, s.puts[i]? = some was → put'.Ok maxBytes s.ready →
      ∀ (j : Nat) put, (s.puts.set i put')[j]? = some put → put.Ok maxBytes s.ready := fun hwas hok j put hput => by
    obtain ⟨-, rfl⟩ | ⟨-, hsame⟩ := (Agents.getElem?_set_some hwas).mp hput
    · exact hok
    · exact hs j put hsame
  have hidle : ∀ {was : Put}, ({ was with stage := .finished } : Put).Ok maxBytes s.ready := fun type hstage => by simp at hstage
  cases l with
  | clock | get | load | clear => cases h; exact hs
  | put key image => cases h; exact hstart key image
  | open_ ok fails =>
    simp only [step] at h
    split at h
    · cases h
    · have hready : ∀ (i : Nat) put, s.puts[i]? = some put → put.Ok maxBytes true := fun i put hput type hstage => ⟨rfl, (hs i put hput type hstage).2⟩
      split at h <;> cases h <;> exact hready
  | getOpened | readFile | getRead =>
    obtain ⟨get, -, hstep⟩ := Option.bind_eq_some_iff.mp h
    obtain ⟨hready, hputs, -⟩ := Get.step_frame hstep
    rwa [hready, hputs]
  | putOpened i =>
    obtain ⟨put, hput, hstep⟩ := Option.bind_eq_some_iff.mp h
    simp only [Put.step] at hstep
    split at hstep
    next hopening =>
      split at hstep
      next type htype =>
        split at hstep
        next => cases hstep; exact hset hput hidle
        next hfits =>
          cases hstep
          refine hset hput fun type' hstage => ?_
          obtain rfl : type = type' := by simpa using hstage
          exact ⟨hopening.2, htype, not_lt.mp fun hlt => hfits (.inr hlt)⟩
      next => cases hstep; exact hset hput hidle
    next => cases hstep
  | writeFile i ok =>
    obtain ⟨put, hput, hstep⟩ := Option.bind_eq_some_iff.mp h
    simp only [Put.step] at hstep
    split at hstep
    next type hstage =>
      cases hstep
      refine hset hput fun type' hstage' => ?_
      cases ok with
      | true =>
        obtain rfl : type = type' := by simpa using hstage'
        exact hs i put hput type (.inl hstage)
      | false => simp at hstage'
    next => cases hstep
  | rename i ok =>
    obtain ⟨put, hput, hstep⟩ := Option.bind_eq_some_iff.mp h
    simp only [Put.step] at hstep
    split at hstep
    next type hstage =>
      split at hstep
      next =>
        cases hstep
        refine hset hput fun type' hstage' => ?_
        obtain rfl : type = type' := by simpa using hstage'
        exact hs i put hput type (.inr (.inl hstage))
      next => cases hstep; exact hset hput hidle
    next => cases hstep
  | putRenamed i =>
    obtain ⟨put, hput, hstep⟩ := Option.bind_eq_some_iff.mp h
    simp only [Put.step] at hstep
    split at hstep <;> cases hstep
    exact hset hput hidle
  | loadGot | produced | loadPut =>
    obtain ⟨load, -, hstep⟩ := Option.bind_eq_some_iff.mp h
    obtain ⟨hready, -, -, -, -, hputs | ⟨image, hputs⟩⟩ := Load.step_frame hstep
    · rwa [hready, hputs]
    · rw [hready, hputs]
      exact hstart load.key image
  | clearOpened =>
    simp only [step] at h
    split at h <;> cases h
    exact hs
  | unlink j ok =>
    obtain ⟨name, -, rfl⟩ := Option.map_eq_some_iff.mp h
    exact hs

/-- What holds of the cache in the runs of `Keeps`. -/
structure Ok (maxBytes : Int) (s : State) : Prop where
  counted : s.cache.Counted
  /-- Nothing is in the index before the directory was read. -/
  early : s.ready = false → s.cache.index = .empty
  puts : ∀ (i : Nat) put, s.puts[i]? = some put → put.Ok maxBytes s.ready

/-- A directory is read in which of two files of one key the older one is empty, and a `get` puts back an entry that the index still
holds. -/
def Keeps (s : State) : Label → Prop
  | .open_ _ fails => (s.found fails).Pairwise fun a b => a.key = b.key → a.size = 0
  | .getRead i => ∀ get, s.gets[i]? = some get → ∀ entry bytes, get.stage = .read entry (some bytes) → s.cache.index.get? get.key = some entry
  | _ => True

theorem ready_mono (h : step maxBytes s l = some s') (hready : s.ready = true) : s'.ready = true := by
  cases l with
  | clock | get | put | load | clear => cases h; exact hready
  | open_ => simp [step, hready] at h
  | getOpened | readFile | getRead =>
    obtain ⟨get, -, hstep⟩ := Option.bind_eq_some_iff.mp h
    exact (Get.step_frame hstep).1.trans hready
  | putOpened | writeFile | rename | putRenamed =>
    obtain ⟨put, -, hstep⟩ := Option.bind_eq_some_iff.mp h
    exact (Put.step_frame hstep).1.trans hready
  | loadGot | produced | loadPut =>
    obtain ⟨load, -, hstep⟩ := Option.bind_eq_some_iff.mp h
    exact (Load.step_frame hstep).1.trans hready
  | clearOpened =>
    simp only [step] at h
    split at h <;> cases h
    exact hready
  | unlink =>
    obtain ⟨name, -, rfl⟩ := Option.map_eq_some_iff.mp h
    exact hready

/-- `open` runs once. -/
theorem open_ready {ok : Bool} {fails : List Name} (h : step maxBytes s (.open_ ok fails) = some s') : s.ready = false ∧ s'.ready = true := by
  simp only [step] at h
  split at h
  · cases h
  next hready =>
    split at h <;> cases h <;> exact ⟨by simpa using hready, rfl⟩

/-- A step of `Keeps` keeps the bytes counted, and brings in no entry but a new one. -/
theorem step_ok (hs : Ok maxBytes s) (hkeeps : Keeps s l) (h : step maxBytes s l = some s') : Ok maxBytes s' ∧ s.cache.Comes s'.cache := by
  have hputs := step_puts hs.puts h
  have hnotReady : s'.ready = false → s.ready = false := fun hready => by
    by_contra hne
    rw [ready_mono h (by simpa using hne)] at hready
    cases hready
  cases step_moves h with
  | same hindex htotal hmade =>
    have hcounted : s'.cache.Counted := by rw [Cache.Counted, Cache.held, htotal, hindex]; exact hs.counted
    exact ⟨⟨hcounted, fun hready => hindex ▸ hs.early (hnotReady hready), hputs⟩, .of_sub hmade fun e he => hindex ▸ he⟩
  | opened fails hl hcache =>
    subst hl
    obtain ⟨hready, hready'⟩ := open_ready h
    have hempty := hs.early hready
    obtain ⟨hcounted, hcomes⟩ := Cache.foldl_add_spec hs.counted hkeeps fun f _ old hold => by
      rw [hempty] at hold
      cases hold
    have hevicted := @Cache.evictAll_spec maxBytes 0 ((s.found fails).foldl Cache.add s.cache)
    exact ⟨⟨hcache ▸ hevicted.counted hcounted, fun hnot => by simp [hready'] at hnot, hputs⟩, hcache ▸ hcomes.trans hevicted.comes⟩
  | forgot key hcache =>
    refine ⟨⟨hcache ▸ Cache.forget_counted hs.counted, fun hready => ?_, hputs⟩, hcache ▸ Cache.forget_comes⟩
    have hempty := hs.early (hnotReady hready)
    rw [hcache, Cache.forget_of_none (by rw [hempty]; rfl), hempty]
  | putBack i get entry bytes hl hget hstage hcache =>
    subst hl
    have hsame := hkeeps get hget entry bytes hstage
    obtain ⟨hcounted, hcomes⟩ := Cache.putBack_spec hs.counted hsame
    refine ⟨⟨hcache ▸ hcounted, fun hready => ?_, hputs⟩, hcache ▸ hcomes⟩
    rw [hs.early (hnotReady hready)] at hsame
    cases hsame
  | stored i put type hl hput hstage hcache =>
    obtain ⟨hready, -, hsize⟩ := hs.puts i put hput type (.inr (.inr hstage))
    obtain ⟨hcounted, hcomes, -⟩ := @Cache.store_spec maxBytes s.cache put.key s.now type put.image.bytes hs.counted hsize
    exact ⟨⟨hcache ▸ hcounted, fun hnot => by simp [hnotReady hnot] at hready, hputs⟩, hcache ▸ hcomes⟩
  | cleared hready hcache =>
    obtain ⟨hcounted, hcomes⟩ := @Cache.foldl_forget_spec s.cache (s.cache.index.entries.map Prod.fst) hs.counted
    exact ⟨⟨hcache ▸ hcounted, fun hnot => by simp [hnotReady hnot] at hready, hputs⟩, hcache ▸ hcomes⟩

theorem ok_invariant : (system maxBytes).Invariant Keeps (Ok maxBytes) where
  init := by
    rintro s ⟨disk, rfl⟩
    refine ⟨rfl, fun _ => rfl, fun i put h => ?_⟩
    simp at h
  step hs hkeeps h := (step_ok hs hkeeps h).1

theorem comes_run (hs : Ok maxBytes s) (h : (system maxBytes).Run Keeps s s') : s.cache.Comes s'.cache := by
  induction h with
  | refl => exact .refl _
  | tail hrun hkeeps hstep ih => exact ih.trans (step_ok (ok_invariant.run hs hrun) hkeeps hstep).2

end MailExpert.ImageCache
