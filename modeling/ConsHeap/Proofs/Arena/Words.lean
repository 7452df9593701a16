import ConsHeap.Proofs.Arena.Leases

/-!
# Arenas in words

An arena counts with natural numbers. A machine counts with words of 64 bits, and the numbers of
slots have 32. `Arena.Words` is an arena as a machine keeps it. The functions on it do the same
arithmetic with words, and they end without a result as soon as a sum, a product or a difference is
not a word, or a slot number is not one that an id can carry. That they have a result is therefore
the statement that nothing overflows on the way.

The products and casts that make up slot numbers are not checked by the machine itself. They are
safe because the one product that is checked, before a page is added, bounds the number of all slots
(`Arena.Sound.totalSlots_le`), and because the cursor stays inside the newest page.

* `Arena.Fits` — the page size and the page limit are words; all other numbers of an arena then are
  words, too (`Arena.Sound.words_holds`);
* `Arena.Sound.refusal?_words`, `Arena.Sound.carve?_words`, `Arena.Sound.next?_words` — what the
  machine computes for a request is what the arena does;
* `Arena.Run.words_exact` — it is so in every run.
-/

namespace ConsHeap

/-! ### Words -/

namespace Word

variable {m n k : Nat} {x y : UInt64}

theorem size_lt_size : UInt32.size < UInt64.size := by
  decide

/-- The word of a count, unless there is none. -/
def count? (n : Nat) : Option UInt64 :=
  if n < UInt64.size then some (.ofNat n) else none

/-- The sum of two words, unless it overflows. -/
def add? (x y : UInt64) : Option UInt64 :=
  if x.toNat + y.toNat < UInt64.size then some (x + y) else none

/-- The difference of two words, unless it is negative. -/
def sub? (x y : UInt64) : Option UInt64 :=
  if y.toNat ≤ x.toNat then some (x - y) else none

/-- The product of two words, unless it overflows. -/
def mul? (x y : UInt64) : Option UInt64 :=
  if x.toNat * y.toNat < UInt64.size then some (x * y) else none

/-- The id whose number is the low half of a word, unless the high half is lost that way. -/
def id? (x : UInt64) : Option PairId :=
  if x.toNat < UInt32.size then some ⟨x.toUInt32⟩ else none

theorem count?_eq_some (h : n < UInt64.size) : count? n = some (.ofNat n) :=
  if_pos h

theorem add?_ofNat (hm : m < UInt64.size) (hn : n < UInt64.size) (h : m + n < UInt64.size) :
    add? (.ofNat m) (.ofNat n) = some (.ofNat (m + n)) := by
  unfold add?
  rw [UInt64.toNat_ofNat_of_lt' hm, UInt64.toNat_ofNat_of_lt' hn, if_pos h, UInt64.ofNat_add]

theorem sub?_ofNat (hm : m < UInt64.size) (h : n ≤ m) :
    sub? (.ofNat m) (.ofNat n) = some (.ofNat (m - n)) := by
  unfold sub?
  rw [UInt64.toNat_ofNat_of_lt' hm, UInt64.toNat_ofNat_of_lt' (Nat.lt_of_le_of_lt h hm), if_pos h,
    UInt64.ofNat_sub h]

theorem mul?_ofNat (hm : m < UInt64.size) (hn : n < UInt64.size) (h : m * n < UInt64.size) :
    mul? (.ofNat m) (.ofNat n) = some (.ofNat (m * n)) := by
  unfold mul?
  rw [UInt64.toNat_ofNat_of_lt' hm, UInt64.toNat_ofNat_of_lt' hn, if_pos h, UInt64.ofNat_mul]

/-- A product is too large as a number exactly when it is no word, or one that is too large. -/
theorem mul?_all (hm : m < UInt64.size) (hn : n < UInt64.size) (hk : k < UInt64.size) :
    (mul? (.ofNat m) (.ofNat n)).all (fun x => decide (k < x.toNat)) = decide (k < m * n) := by
  by_cases h : m * n < UInt64.size
  · rw [mul?_ofNat hm hn h, Option.all_some, UInt64.toNat_ofNat_of_lt' h]
  · have hnone : mul? (.ofNat m) (.ofNat n) = none := by
      unfold mul?
      rw [UInt64.toNat_ofNat_of_lt' hm, UInt64.toNat_ofNat_of_lt' hn, if_neg h]
    rw [hnone, Option.all_none, eq_comm, decide_eq_true_iff]
    omega

theorem id?_ofNat (h : n < UInt32.size) : id? (.ofNat n) = some (.ofNat n) := by
  have h' : n < UInt64.size := Nat.lt_trans h (by decide)
  unfold id?
  rw [UInt64.toNat_ofNat_of_lt' h', if_pos h, UInt64.toUInt32_ofNat']
  rfl

/-- A range of slot numbers as ids. -/
theorem mapM_id? {l : List Nat} (h : ∀ n ∈ l, n < UInt32.size) :
    (l.mapM fun n => id? (.ofNat n)) = some (l.map PairId.ofNat) := by
  induction l with
  | nil => rfl
  | cons n l ih =>
    rw [List.mapM_cons, id?_ofNat (h n List.mem_cons_self),
      ih fun m hm => h m (List.mem_cons_of_mem n hm)]
    rfl

theorem ofNat_inj (hm : m < UInt64.size) (hn : n < UInt64.size) :
    UInt64.ofNat m = UInt64.ofNat n ↔ m = n := by
  rw [← UInt64.toNat_inj, UInt64.toNat_ofNat_of_lt' hm, UInt64.toNat_ofNat_of_lt' hn]

theorem ofNat_le (hm : m < UInt64.size) (hn : n < UInt64.size) :
    UInt64.ofNat m ≤ UInt64.ofNat n ↔ m ≤ n := by
  rw [UInt64.le_iff_toNat_le, UInt64.toNat_ofNat_of_lt' hm, UInt64.toNat_ofNat_of_lt' hn]

end Word

namespace Arena

/-! ### The machine's arena -/

/-- The numbers that an arena is kept by, as words. -/
structure Words where
  pageSize : UInt64
  maxPages : Option UInt64
  pageCount : UInt64
  cursor : UInt64
  freeList : List PairId

/-- The words of an arena. -/
def words (a : Arena) : Words where
  pageSize := .ofNat a.pageSize
  maxPages := a.maxPages.map .ofNat
  pageCount := .ofNat a.pageCount
  cursor := .ofNat a.cursor
  freeList := a.freeList

namespace Words

/-- Nothing was lost when the numbers of the arena became words. -/
structure Holds (w : Words) (a : Arena) : Prop where
  pageSize : w.pageSize.toNat = a.pageSize
  maxPages : w.maxPages.map UInt64.toNat = a.maxPages
  pageCount : w.pageCount.toNat = a.pageCount
  cursor : w.cursor.toNat = a.cursor
  freeList : w.freeList = a.freeList

/-- The number of slots of all pages. -/
def totalSlots? (w : Words) : Option UInt64 :=
  Word.mul? w.pageCount w.pageSize

/-- The number of slots that can be handed out without a new page. -/
def available? (w : Words) : Option UInt64 := do
  let recycled ← Word.count? w.freeList.length
  let uncarved ← Word.sub? w.pageSize w.cursor
  Word.add? recycled uncarved

/-- Whether an id names a slot of some page. -/
def contains? (w : Words) (id : PairId) : Option Bool := do
  let total ← w.totalSlots?
  return id.number.toUInt64 < total

/-- The slots of the newest page that were never handed out. -/
def uncarved? (w : Words) : Option (List PairId) :=
  -- that there is no page to be the newest one is no overflow
  match Word.sub? w.pageCount 1 with
  | none => some []
  | some page => do
    let base ← Word.mul? page w.pageSize
    let first ← Word.add? base w.cursor
    let last ← Word.add? base w.pageSize
    (List.range' first.toNat (last.toNat - first.toNat)).mapM fun n => Word.id? (.ofNat n)

/-- Every slot that can be handed out without a new page. -/
def voidSlots? (w : Words) : Option (List PairId) := do
  let uncarved ← w.uncarved?
  return w.freeList.reverse ++ uncarved

/-- The page of a slot. -/
def page (w : Words) (id : PairId) : UInt64 :=
  id.number.toUInt64 / w.pageSize

/-- The place of a slot inside its page. -/
def offset (w : Words) (id : PairId) : UInt64 :=
  id.number.toUInt64 % w.pageSize

/-- Why no further page can be had, if so. -/
def refusal? (w : Words) : Option (Option Event) :=
  if w.maxPages.any (· ≤ w.pageCount) then some (some (.pageLimitReached w.pageCount.toNat))
  else do
    let pages ← Word.add? w.pageCount 1
    -- this product is the machine's to check: too many slots are refused, also when they overflow
    if (Word.mul? pages w.pageSize).all fun slots => decide (maxSlots < slots.toNat) then
      return some .slotNumbersExhausted
    else
      return none

/-- One more page, none of whose slots is carved. -/
def addPage? (w : Words) : Option Words := do
  let pageCount ← Word.add? w.pageCount 1
  return { w with pageCount, cursor := 0 }

/-- The next uncarved slot of the newest page. -/
def carve? (w : Words) : Option (PairId × Words) := do
  let page ← Word.sub? w.pageCount 1
  let base ← Word.mul? page w.pageSize
  let number ← Word.add? base w.cursor
  let id ← Word.id? number
  let cursor ← Word.add? w.cursor 1
  return (id, { w with cursor })

/-- A new page, or the reason why there is none. -/
def grow? (t : Traced Words) : Option (Except HeapError Unit × Traced Words) := do
  match ← t.state.refusal? with
  | some e =>
    return (.error (.outOfMemory t.state.pageCount.toNat t.state.pageSize.toNat),
      ⟨t.state, t.events.push e⟩)
  | none =>
    let grown ← t.state.addPage?
    let total ← grown.totalSlots?
    return (.ok (), ⟨grown, t.events.push (.pageAllocated t.state.pageCount.toNat total.toNat)⟩)

/-- A slot carved from the newest page. -/
def carveTraced? (t : Traced Words) : Option (Except HeapError PairId × Traced Words) := do
  let (id, carved) ← t.state.carve?
  return (.ok id, ⟨carved, t.events⟩)

/-- Hand out a slot: a recycled one, else an uncarved one, on a new page if the newest one is used
up. -/
def next? (t : Traced Words) : Option (Except HeapError PairId × Traced Words) :=
  match t.state.freeList with
  | id :: rest => some (.ok id, ⟨{ t.state with freeList := rest }, t.events⟩)
  | [] =>
    if t.state.cursor = t.state.pageSize then do
      match ← grow? t with
      | (.ok (), grown) => carveTraced? grown
      | (.error e, refused) => return (.error e, refused)
    else carveTraced? t

/-- A slot taken back joins the recycled ones. Nothing is computed for that. -/
def retire (w : Words) (id : PairId) : Words :=
  { w with freeList := id :: w.freeList }

end Words

variable {a a₀ : Arena} {id : PairId} {held : List PairId} {peak : Nat} {es : Array Event}

/-! ### All numbers of an arena are words -/

/-- The page size and the page limit are words. -/
structure Fits (a : Arena) : Prop where
  pageSize_lt : a.pageSize < UInt64.size
  maxPages_lt : ∀ limit ∈ a.maxPages, limit < UInt64.size

/-- A new page changes neither of them. -/
theorem Fits.addPage (hf : a.Fits) : a.addPage.Fits :=
  ⟨hf.pageSize_lt, hf.maxPages_lt⟩

/-- The number that follows the last slot number still has 32 bits. -/
theorem Sound.totalSlots_lt_size (h : a.Sound) : a.totalSlots < UInt32.size :=
  Nat.lt_of_le_of_lt h.totalSlots_le (by decide)

theorem Sound.totalSlots_isWord (h : a.Sound) : a.totalSlots < UInt64.size :=
  Nat.lt_trans h.totalSlots_lt_size Word.size_lt_size

/-- There is a word for the number of pages, and for one page more. -/
theorem Sound.pageCount_isWord (h : a.Sound) : a.pageCount + 1 < UInt64.size := by
  have hle : a.pageCount ≤ a.totalSlots := Nat.le_mul_of_pos_right _ a.pageSize_pos
  have hlt := h.totalSlots_lt_size
  have hsize := Word.size_lt_size
  omega

/-- The number of pages is counted up in words. -/
theorem Sound.nextPage_words (h : a.Sound) :
    Word.add? a.words.pageCount 1 = some (.ofNat (a.pageCount + 1)) :=
  Word.add?_ofNat (n := 1) (Nat.lt_of_succ_lt h.pageCount_isWord) (by decide) h.pageCount_isWord

/-- The newest page ends where all slots end. -/
theorem Sound.newest_lt_size (h : a.Sound) (hp : 0 < a.pageCount) :
    (a.pageCount - 1) * a.pageSize + a.pageSize < UInt32.size := by
  rw [← Nat.succ_mul, Nat.succ_eq_add_one, Nat.sub_add_cancel hp]
  exact h.totalSlots_lt_size

theorem Sound.words_holds (h : a.Sound) (hf : a.Fits) : a.words.Holds a where
  pageSize := UInt64.toNat_ofNat_of_lt' hf.pageSize_lt
  maxPages := by
    have hlimit := hf.maxPages_lt
    unfold words
    cases hm : a.maxPages with
    | none => rfl
    | some limit =>
      rw [Option.map_some, Option.map_some, UInt64.toNat_ofNat_of_lt' (hlimit limit hm)]
  pageCount := UInt64.toNat_ofNat_of_lt' (Nat.lt_of_succ_lt h.pageCount_isWord)
  cursor := UInt64.toNat_ofNat_of_lt' (Nat.lt_of_le_of_lt h.cursor_le hf.pageSize_lt)
  freeList := rfl

/-! ### Counts -/

theorem Sound.totalSlots?_words (h : a.Sound) (hf : a.Fits) :
    a.words.totalSlots? = some (.ofNat a.totalSlots) :=
  Word.mul?_ofNat (Nat.lt_of_succ_lt h.pageCount_isWord) hf.pageSize_lt h.totalSlots_isWord

/-- The vacant slots are some of all slots, so their number is a word. -/
theorem Divided.available_lt (h : Divided held a) : a.available < UInt64.size := by
  have hsum := h.length_add
  have htotal := h.sound.totalSlots_isWord
  rw [h.sound.length_voidSlots] at hsum
  omega

theorem Divided.available?_words (h : Divided held a) (hf : a.Fits) :
    a.words.available? = some (.ofNat a.available) := by
  have hlt := h.available_lt
  unfold available at hlt
  have hfree : a.freeList.length < UInt64.size := by omega
  have huncarved : a.pageSize - a.cursor < UInt64.size := by omega
  unfold Words.available? words
  rw [Word.count?_eq_some hfree, Word.sub?_ofNat hf.pageSize_lt h.sound.cursor_le]
  exact Word.add?_ofNat hfree huncarved hlt

theorem Sound.contains?_words (h : a.Sound) (hf : a.Fits) :
    a.words.contains? id = some (a.contains id) := by
  unfold Words.contains?
  rw [h.totalSlots?_words hf]
  have hlt : id.number.toUInt64 < UInt64.ofNat a.totalSlots ↔ id.index < a.totalSlots := by
    rw [UInt64.lt_iff_toNat_lt, UInt32.toNat_toUInt64,
      UInt64.toNat_ofNat_of_lt' h.totalSlots_isWord]
    rfl
  exact congrArg some (decide_eq_decide.2 hlt)

/-! ### Slot numbers -/

/-- The number of the first slot of the newest page, as the machine computes it. -/
theorem Sound.base_words (h : a.Sound) (hf : a.Fits) (hp : 0 < a.pageCount) :
    Word.sub? a.words.pageCount 1 = some (.ofNat (a.pageCount - 1)) ∧
      Word.mul? (.ofNat (a.pageCount - 1)) a.words.pageSize =
        some (.ofNat ((a.pageCount - 1) * a.pageSize)) := by
  have hcount := h.pageCount_isWord
  have hnewest := h.newest_lt_size hp
  have hsize := Word.size_lt_size
  exact ⟨Word.sub?_ofNat (by omega) hp, Word.mul?_ofNat (by omega) hf.pageSize_lt (by omega)⟩

/-- The first uncarved slot has a number that an id can carry. -/
theorem Sound.carve?_words (h : a.Sound) (hf : a.Fits) (hc : a.cursor < a.pageSize) :
    a.words.carve? = some (a.carve.1, a.carve.2.words) := by
  have hp : 0 < a.pageCount :=
    Nat.pos_of_ne_zero fun hp => Nat.ne_of_lt hc (h.cursor_eq hp)
  obtain ⟨hpage, hbase⟩ := h.base_words hf hp
  have hnewest := h.newest_lt_size hp
  have hsize := Word.size_lt_size
  have hnumber : Word.add? (.ofNat ((a.pageCount - 1) * a.pageSize)) a.words.cursor =
      some (.ofNat ((a.pageCount - 1) * a.pageSize + a.cursor)) :=
    Word.add?_ofNat (by omega) (by omega) (by omega)
  have hid : Word.id? (.ofNat ((a.pageCount - 1) * a.pageSize + a.cursor)) = some a.carve.1 :=
    Word.id?_ofNat (by omega)
  have hcursor : Word.add? a.words.cursor 1 = some (.ofNat (a.cursor + 1)) :=
    Word.add?_ofNat (n := 1) (by omega) (by decide) (by omega)
  unfold Words.carve?
  simp only [hpage, hbase, hnumber, hid, hcursor, Option.bind_eq_bind, Option.bind_some]
  rfl

/-- The uncarved slots have numbers that ids can carry, and the number that ends them is a word. -/
theorem Sound.uncarved?_words (h : a.Sound) (hf : a.Fits) :
    a.words.uncarved? = some a.uncarved := by
  unfold Words.uncarved? uncarved
  by_cases hp : a.pageCount = 0
  · have hnone : Word.sub? a.words.pageCount 1 = none := by
      unfold words
      rw [hp]
      rfl
    rw [hnone, if_pos hp]
  · have hp' : 0 < a.pageCount := Nat.pos_of_ne_zero hp
    obtain ⟨hpage, hbase⟩ := h.base_words hf hp'
    have hnewest := h.newest_lt_size hp'
    have hle := h.cursor_le
    have hsize := Word.size_lt_size
    -- both ends of the range are at most the number of all slots
    have hfirst : Word.add? (.ofNat ((a.pageCount - 1) * a.pageSize)) a.words.cursor =
        some (.ofNat ((a.pageCount - 1) * a.pageSize + a.cursor)) :=
      Word.add?_ofNat (by omega) (by omega) (by omega)
    have hlast : Word.add? (.ofNat ((a.pageCount - 1) * a.pageSize)) a.words.pageSize =
        some (.ofNat ((a.pageCount - 1) * a.pageSize + a.pageSize)) :=
      Word.add?_ofNat (by omega) hf.pageSize_lt (by omega)
    rw [hpage, if_neg hp]
    simp only [hbase, hfirst, hlast, Option.bind_eq_bind, Option.bind_some]
    rw [UInt64.toNat_ofNat_of_lt' (by omega), UInt64.toNat_ofNat_of_lt' (by omega),
      Nat.add_sub_add_left]
    -- each number in between is that of a slot
    refine Word.mapM_id? fun n hn => ?_
    rw [List.mem_range'_1] at hn
    omega

theorem Sound.voidSlots?_words (h : a.Sound) (hf : a.Fits) :
    a.words.voidSlots? = some a.voidSlots := by
  unfold Words.voidSlots?
  rw [h.uncarved?_words hf]
  rfl

/-- Where the machine looks for a slot. -/
theorem Fits.locate_words (hf : a.Fits) :
    (a.words.page id).toNat = id.page a.pageSize ∧
      (a.words.offset id).toNat = id.offset a.pageSize := by
  unfold Words.page Words.offset
  rw [UInt64.toNat_div, UInt64.toNat_mod, UInt32.toNat_toUInt64]
  have hsize : a.words.pageSize.toNat = a.pageSize := UInt64.toNat_ofNat_of_lt' hf.pageSize_lt
  rw [hsize]
  exact ⟨rfl, rfl⟩

/-! ### A request -/

theorem Sound.refusal?_words (h : a.Sound) (hf : a.Fits) :
    a.words.refusal? = some a.refusal? := by
  have hcount := h.pageCount_isWord
  have hlimit : a.words.maxPages.any (· ≤ a.words.pageCount) =
      a.maxPages.any (· ≤ a.pageCount) := by
    have hlt := hf.maxPages_lt
    unfold words
    cases hm : a.maxPages with
    | none => rfl
    | some limit =>
      exact decide_eq_decide.2 (Word.ofNat_le (hlt limit hm) (by omega))
  -- the one product that may overflow: then there are too many slots in any case
  have hslots : (Word.mul? (.ofNat (a.pageCount + 1)) a.words.pageSize).all
      (fun slots => decide (maxSlots < slots.toNat)) =
        decide (maxSlots < (a.pageCount + 1) * a.pageSize) :=
    Word.mul?_all hcount hf.pageSize_lt (by decide)
  unfold Words.refusal? refusal?
  rw [hlimit, (h.words_holds hf).pageCount]
  split
  · rfl
  · simp only [h.nextPage_words, Option.bind_eq_bind, Option.bind_some, hslots, decide_eq_true_iff]
    split <;> rfl

/-- A second page of this size misses the largest number of slots by one. -/
example : Words.refusal? ⟨2147483648, none, 1, 2147483648, []⟩ =
    some (some .slotNumbersExhausted) := by
  decide

theorem Sound.addPage?_words (h : a.Sound) : a.words.addPage? = some a.addPage.words := by
  unfold Words.addPage?
  rw [h.nextPage_words]
  unfold words
  rw [pageCount_addPage]
  rfl

/-- A page is added, or refused, as the arena does it, when no slot is vacant. -/
theorem Sound.grow?_words (h : a.Sound) (hf : a.Fits) (hvoid : a.voidSlots = []) :
    grow.Yields ⟨a, es⟩ fun r u =>
      Words.grow? ⟨a.words, es⟩ = some (r, ⟨u.state.words, u.events⟩) ∧
        (r = .ok () → u.state = a.addPage ∧ a.addPage.Sound) := by
  unfold grow Words.grow?
  rw [Action.yields_bind, Action.yields_ask]
  simp only [h.refusal?_words hf, Option.bind_eq_bind, Option.bind_some]
  have hholds := h.words_holds hf
  cases href : a.refusal? with
  | some e =>
    simp only [Action.yields_bind, Action.yields_report, Action.yields_ask, Action.yields_pure]
    rw [hholds.pageCount, hholds.pageSize]
    exact ⟨rfl, fun hok => by cases hok⟩
  | none =>
    have hsound : a.addPage.Sound := sound_addPage hvoid (totalSlots_le_of_refusal? href)
    simp only [Action.yields_bind, Action.yields_update, Action.yields_report, Action.yields_ask,
      Action.yields_pure, h.addPage?_words, hsound.totalSlots?_words hf.addPage, Option.bind_some]
    rw [hholds.pageCount, pageCount_addPage, Nat.add_sub_cancel,
      UInt64.toNat_ofNat_of_lt' hsound.totalSlots_isWord]
    exact ⟨rfl, fun _ => ⟨trivial, hsound⟩⟩

theorem Sound.carveTraced?_words (h : a.Sound) (hf : a.Fits) (hc : a.cursor < a.pageSize) :
    Words.carveTraced? ⟨a.words, es⟩ = some (.ok a.carve.1, ⟨a.carve.2.words, es⟩) := by
  unfold Words.carveTraced?
  simp only [h.carve?_words hf hc, Option.bind_eq_bind, Option.bind_some]
  rfl

/-- **The step of a run.** What the machine computes for a request is what the arena does. -/
theorem Sound.next?_words (h : a.Sound) (hf : a.Fits) :
    Arena.next.Yields ⟨a, es⟩ fun r u =>
      Words.next? ⟨a.words, es⟩ = some (r, ⟨u.state.words, u.events⟩) := by
  have hused : a.words.cursor = a.words.pageSize ↔ a.cursor = a.pageSize :=
    Word.ofNat_inj (Nat.lt_of_le_of_lt h.cursor_le hf.pageSize_lt) hf.pageSize_lt
  unfold Arena.next Words.next? reuse
  rw [Action.yields_bind, Action.yields_updateGet]
  have hlist : a.words.freeList = a.freeList := rfl
  simp only [hlist]
  cases hfree : a.freeList with
  | cons id rest => exact Action.yields_pure.2 rfl
  | nil =>
    unfold extend
    simp only [hused]
    rw [Action.yields_bind, Action.yields_ask, Action.yields_ite]
    refine ⟨fun hc => ?_, fun hc => ?_⟩
    · have hc : a.cursor = a.pageSize := beq_iff_eq.1 hc
      rw [if_pos hc, Action.yields_bind]
      refine (h.grow?_words hf (voidSlots_eq_nil hfree hc)).mono fun r m hm => ?_
      obtain ⟨hgrow, hok⟩ := hm
      simp only [hgrow, Option.bind_eq_bind, Option.bind_some]
      cases r with
      | error e => exact Action.yields_pure.2 rfl
      | ok x =>
        -- on a new page there is room to carve
        obtain ⟨hstate, hsound⟩ := hok rfl
        simp only [Action.yields_bind, Action.yields_updateGet, Action.yields_pure, hstate]
        exact hsound.carveTraced?_words hf.addPage a.pageSize_pos
    · have hc : a.cursor ≠ a.pageSize := fun he => hc (beq_iff_eq.2 he)
      rw [if_neg hc]
      simp only [Action.yields_bind, Action.yields_updateGet, Action.yields_pure]
      exact h.carveTraced?_words hf (Nat.lt_of_le_of_ne h.cursor_le hc)

theorem words_retire : (a.retire id).words = a.words.retire id := by
  have hcount : (a.retire id).pageCount = a.pageCount := pageCount_modify
  unfold words
  rw [hcount]
  rfl

/-! ### Every run -/

theorem Run.fits (run : Run a₀ held peak a) (h : Leased [] 0 a₀) (hf : a₀.Fits) : a.Fits := by
  obtain ⟨-, hsize, hmax⟩ := run.leased h
  exact ⟨hsize ▸ hf.pageSize_lt, hmax ▸ hf.maxPages_lt⟩

theorem contains_iff : a.contains id = true ↔ ∃ x, a.slot id = .ok x := by
  unfold contains
  rw [decide_eq_true_iff, ← slot?_isSome, Option.isSome_iff_exists]
  simp only [slot_eq_ok]

/-- **Counting never overflows, and a slot number names one slot.** Take a page size that is a
positive word, and any page limit. After any requests, returns and writes of holders there are fewer
slots than 32 bits can number, and the numbers of the arena are words. Whatever is counted and
listed then, and whatever a request or a return does, is what a machine computes: on its way there
no sum, product or difference leaves the words, and no slot number is cut off. An id is looked up
where the machine looks for it, and it is found exactly when it names a slot of some page. A write
to a slot is read there, and nowhere else. -/
theorem Run.words_exact {pageSize : UInt64} {maxPages : Option UInt64} (hsize : 0 < pageSize.toNat)
    (run : Run (empty pageSize.toNat (maxPages.map UInt64.toNat) hsize) held peak a)
    (es : Array Event) :
    a.totalSlots ≤ maxSlots ∧
    a.words.Holds a ∧
    a.words.totalSlots?.map UInt64.toNat = some a.totalSlots ∧
    a.words.available?.map UInt64.toNat = some a.available ∧
    a.words.voidSlots? = some a.voidSlots ∧
    (next.Yields ⟨a, es⟩ fun r u =>
      Words.next? ⟨a.words, es⟩ = some (r, ⟨u.state.words, u.events⟩)) ∧
    (∀ id ∈ held, (recycle id).Yields ⟨a, es⟩ fun _ u => u.state.words = a.words.retire id) ∧
    (∀ id, a.words.contains? id = some (a.contains id) ∧
      (a.words.page id).toNat = id.page a.pageSize ∧
      (a.words.offset id).toNat = id.offset a.pageSize ∧
      (a.contains id = true ↔ ∃ x, a.slot id = .ok x)) ∧
    ∀ id x f, a.slot id = .ok x → (a.modify id f).slot id = .ok (f x) ∧
      ∀ j, j ≠ id → (a.modify id f).slot j = a.slot j := by
  have hempty : (empty pageSize.toNat (maxPages.map UInt64.toNat) hsize).Fits := by
    refine ⟨pageSize.toNat_lt_size, fun limit hlimit => ?_⟩
    obtain ⟨word, -, rfl⟩ := Option.map_eq_some_iff.1 hlimit
    exact word.toNat_lt_size
  have hleased : Leased [] 0 (empty pageSize.toNat (maxPages.map UInt64.toNat) hsize) :=
    .empty hsize
  -- who holds which slot bounds the vacant ones, and the page size and limit stay
  obtain ⟨hl, -⟩ := run.leased hleased
  have h := hl.sound
  have hf : a.Fits := run.fits hleased hempty
  refine ⟨h.totalSlots_le, h.words_holds hf, ?_, ?_, h.voidSlots?_words hf, h.next?_words hf,
    fun id hid => ?_,
    fun id => ⟨h.contains?_words hf, hf.locate_words.1, hf.locate_words.2, contains_iff⟩,
    fun id x f hx => ⟨?_, fun j hj => ?_⟩⟩
  · rw [h.totalSlots?_words hf, Option.map_some,
      UInt64.toNat_ofNat_of_lt' h.totalSlots_isWord]
  · rw [hl.available?_words hf, Option.map_some, UInt64.toNat_ofNat_of_lt' hl.available_lt]
  · -- only who holds a slot gives it back, so it exists
    refine (recycle_yields ((hl.mem_held id).1 hid).1).mono fun _ u hu => ?_
    rw [hu]
    exact words_retire
  · rw [slot_eq_ok] at hx ⊢
    rw [slot?_modify_self, hx]
    rfl
  · unfold slot outside
    rw [slot?_modify_ne hj, pageCount_modify]
    rfl

/-- One page takes up all numbers that slots can have. The largest id names no slot. -/
theorem words_exact_brimful : 0 < (4294967295 : UInt64).toNat ∧
    ∃ a, Run (empty (4294967295 : UInt64).toNat ((none : Option UInt64).map UInt64.toNat)
      (by decide)) [⟨0⟩] 1 a ∧
    a.totalSlots = maxSlots ∧
    a.words.Holds a ∧
    a.words.totalSlots?.map UInt64.toNat = some 4294967295 ∧
    a.words.available?.map UInt64.toNat = some 4294967294 ∧
    a.words.voidSlots? = some a.voidSlots ∧
    (next.Yields ⟨a, #[]⟩ fun r u =>
      Words.next? ⟨a.words, #[]⟩ = some (r, ⟨u.state.words, u.events⟩)) ∧
    ((recycle ⟨0⟩).Yields ⟨a, #[]⟩ fun _ u => u.state.words = a.words.retire ⟨0⟩) ∧
    a.words.contains? ⟨4294967294⟩ = some true ∧
    a.words.contains? ⟨4294967295⟩ = some false ∧
    ∀ f, (a.modify ⟨0⟩ f).slot ⟨4294967294⟩ = a.slot ⟨4294967294⟩ := by
  have fresh : Run (empty (4294967295 : UInt64).toNat ((none : Option UInt64).map UInt64.toNat)
    (by decide)) [] 0 _ := .start
  have first := fresh.granted #[] rfl
  obtain ⟨-, hholds, htotal, havailable, hvoid, hnext, hrecycle, hids, hwrite⟩ :=
    Run.words_exact (by decide) first #[]
  exact ⟨by decide, _, first, rfl, hholds, htotal, havailable, hvoid, hnext,
    hrecycle ⟨0⟩ (by decide), (hids ⟨4294967294⟩).1, (hids ⟨4294967295⟩).1,
    fun f => (hwrite ⟨0⟩ {} f rfl).2 ⟨4294967294⟩ (by decide)⟩

end Arena

end ConsHeap
