import Mathlib.Algebra.Group.Nat.Defs
import Mathlib.Data.List.Range
import Qcacld.Support.Runs
import Qcacld.Support.Threaded

/-!
# Htt — HttTxDesc

The HTT tx descriptors: `htt_tx_attach` gets pages and links the descriptors in them into a freelist, from which `htt_tx_desc_alloc` takes and to which `htt_tx_desc_free` gives.  The linking counts its links and leaves the page it is on when the last is made, but not the loop over the pages.

`tx_desc_pool_right` says that this comes out right exactly when the last descriptor is not the first of its page.
-/

namespace Qcacld.Htt
open Qcacld.Support Function List Option Nat

/-! ### The pages -/

/-- What the allocator gives: whether there is room to note the pages, and each page's address. -/
structure PageSource where
  storage : Bool
  page : Nat → Option Nat

/-- `adf_os_mem_multi_page_t`, with as many pages as `num_pages` -/
structure MultiPage where
  numElementPerPage : Nat
  pages : List Nat

def numPages (numElementPerPage elementNum : Nat) : Nat :=
  elementNum / numElementPerPage + if elementNum % numElementPerPage ≠ 0 then 1 else 0

/-- `adf_os_mem_multi_pages_alloc`.  A page that cannot be had gives the others up. -/
def adfOsMemMultiPagesAlloc (pageSize elementSize elementNum : Nat) (source : PageSource) :
    MultiPage :=
  let numElementPerPage := pageSize / elementSize % 2 ^ 16
  let num := numPages numElementPerPage elementNum
  let pages := (List.range num).filterMap source.page
  { numElementPerPage := numElementPerPage
    pages :=
      if numElementPerPage = 0 then []
      else if !source.storage then []
      else if pages.length < num then []
      else pages }

/-! ### Attach -/

/-- How `htt_tx_attach` goes wrong. -/
inductive AttachFault where
  /-- There are no pages. -/
  | descAllocFail
  /-- The word behind the last of the page addresses is read.  It may be anything. -/
  | pastPages

structure LinkState where
  /-- the first word of each descriptor, as a pointer -/
  mem : Nat → Option Nat
  p : Nat
  numLink : Nat

/-- The address that follows in the array, for `CONFIG_HL_SUPPORT`: `cacheable_pages[i + 1]`, which is not NULL where there is a page. -/
def nextCacheablePage (pages : List Nat) (i : Nat) : Except AttachFault Nat :=
  match pages[i + 1]? with
  | some page => .ok page
  | none => .error .pastPages

/-- The same for a low latency build: `page_info` is checked, and then moved on. -/
def nextDmaPage (pages : List Nat) (i : Nat) : Except AttachFault Nat :=
  match pages[i]? with
  | none => .error .pastPages
  | some _ =>
    match pages[i + 1]? with
    | some page => .ok page
    | none => .error .pastPages

/-- The loop over the descriptors of a page, with so many left.  The last on the page points to the next page; the last link ends the loop. -/
def linkPage (next : Except AttachFault Nat) (size poolElems : Nat) :
    Nat → LinkState → Except AttachFault LinkState
  | 0, st => .ok st
  | left + 1, st =>
    match (if left = 0 then next else .ok (st.p + size)) with
    | .error fault => .error fault
    | .ok target =>
      let st := ⟨update st.mem st.p (some target), target, st.numLink + 1⟩
      if st.numLink + 1 = poolElems then .ok st else linkPage next size poolElems left st

/-- The loop over the pages, with so many left from the `i`-th on. -/
def linkPages (next : Nat → Except AttachFault Nat) (size poolElems numDescPerPage : Nat) :
    Nat → Nat → LinkState → Except AttachFault LinkState
  | 0, _, st => .ok st
  | left + 1, i, st =>
    match linkPage (next i) size poolElems numDescPerPage st with
    | .error fault => .error fault
    | .ok st => linkPages next size poolElems numDescPerPage left (i + 1) st

structure TxDescs where
  size : Nat
  poolElems : Nat
  allocCnt : Nat
  pages : List Nat
  mem : Nat → Option Nat
  freelist : Option Nat
  /-- Ghost: the descriptors that are handed out. -/
  out : List Nat

def wordSize (size : Nat) : Nat := (size + 3) / 4 * 4

/-- `htt_tx_attach`, in the high and in the low latency build.  `pool_elems` has 16 bits. -/
def httTxAttach (highLatency : Bool) (pageSize descSize : Nat) (source : PageSource)
    (mem : Nat → Option Nat) (descPoolElems : Nat) : Except AttachFault TxDescs :=
  let size := wordSize descSize
  let poolElems := descPoolElems % 2 ^ 16
  let descPages := adfOsMemMultiPagesAlloc pageSize size poolElems source
  match descPages.pages.head? with
  | none => .error .descAllocFail
  | some first =>
    let next := if highLatency then nextCacheablePage descPages.pages else nextDmaPage descPages.pages
    match linkPages next size poolElems descPages.numElementPerPage descPages.pages.length 0
        ⟨mem, first, 0⟩ with
    | .error fault => .error fault
    | .ok st => .ok {
        size := size
        poolElems := poolElems
        allocCnt := 0
        pages := descPages.pages
        mem := update st.mem st.p none
        freelist := some first
        out := [] }

/-! ### Descriptors in use -/

/-- `htt_tx_desc_alloc`: the descriptor, if there is one.  `alloc_cnt` has 16 bits. -/
def httTxDescAlloc (s : TxDescs) : Option Nat × TxDescs :=
  match s.freelist with
  | none => (none, s)
  | some desc => (some desc, { s with
      freelist := s.mem desc
      allocCnt := (s.allocCnt + 1) % 2 ^ 16
      out := desc :: s.out })

def httTxDescFree (s : TxDescs) (desc : Nat) : TxDescs :=
  { s with
    mem := update s.mem desc s.freelist
    freelist := some desc
    allocCnt := (s.allocCnt + 2 ^ 16 - 1) % 2 ^ 16
    out := s.out.erase desc }

inductive DescEvent where
  | alloc
  | free (desc : Nat)
  /-- whoever has a descriptor writes to its first word -/
  | write (desc : Nat) (word : Option Nat)

/-- One event.  Only a descriptor that is handed out is freed or written to. -/
def descStep (s : TxDescs) : DescEvent → Option TxDescs
  | .alloc => some (httTxDescAlloc s).2
  | .free desc => do
    guard (desc ∈ s.out)
    return httTxDescFree s desc
  | .write desc word => do
    guard (desc ∈ s.out)
    return { s with mem := update s.mem desc word }

/-- The runs of the pool from what was attached. -/
def descMachine (attached : TxDescs) : Machine TxDescs DescEvent where
  init s := s = attached
  step := descStep

/-! ### What must hold -/

/-- Neither of two blocks reaches into the other. -/
def Apart (size a b : Nat) : Prop := a + size ≤ b ∨ b + size ≤ a

/-- The freelist is a chain of all descriptors, each of them inside a page and none inside another. -/
def FreelistRight (pageSize : Nat) (s : TxDescs) : Prop :=
  ∃ descs, Threaded s.mem s.freelist descs ∧ descs.length = s.poolElems ∧
    descs.Pairwise (Apart s.size) ∧
    ∀ desc ∈ descs, ∃ page ∈ s.pages, page ≤ desc ∧ desc + s.size ≤ page + pageSize

def CountRight (s : TxDescs) : Prop :=
  ∃ descs, Threaded s.mem s.freelist descs ∧ s.allocCnt + descs.length = s.poolElems

/-! ### Where the descriptors are -/

/-- The `k`-th descriptor, when the pages are at `page`. -/
def descAt (page : Nat → Nat) (size per k : Nat) : Nat := page (k / per) + k % per * size

section Places
variable {page : ℕ → ℕ} {pageSize size per i k j num : ℕ}

theorem descAt_inside (page : ℕ → ℕ) (hper : 0 < per) (hfit : per ≤ pageSize / size) (k : ℕ) :
    page (k / per) ≤ descAt page size per k ∧
      descAt page size per k + size ≤ page (k / per) + pageSize := by
  refine ⟨Nat.le_add_right _ _, ?_⟩
  have hlast : k % per + 1 ≤ pageSize / size := Nat.succ_le_of_lt (Nat.lt_of_lt_of_le (Nat.mod_lt k hper) hfit)
  have hroom : (k % per + 1) * size ≤ pageSize :=
    (mul_le_mul_right size hlast).trans (div_mul_le_self pageSize size)
  rw [Nat.add_mul, Nat.one_mul] at hroom
  rw [descAt, add_assoc]
  exact Nat.add_le_add_left hroom _

theorem descAt_succ_page (hlast : (k + 1) % per = 0) :
    descAt page size per (k + 1) = page ((k + 1) / per) := by
  rw [descAt, hlast, Nat.zero_mul, Nat.add_zero]

theorem descAt_succ (hi : i * per ≤ k) (hmid : k + 1 < (i + 1) * per) :
    descAt page size per (k + 1) = descAt page size per k + size := by
  have hdiv : k / per = i := Nat.div_eq_of_lt_le hi (by omega)
  have hdiv' : (k + 1) / per = i := Nat.div_eq_of_lt_le (by omega) hmid
  have hmod : (k + 1) % per = k % per + 1 := by
    have h₁ := div_add_mod (k + 1) per
    have h₂ := div_add_mod k per
    rw [hdiv'] at h₁
    rw [hdiv] at h₂
    omega
  rw [descAt, descAt, hdiv, hdiv', hmod, Nat.add_mul, Nat.one_mul, Nat.add_assoc]

theorem descAt_apart (hper : 0 < per) (hfit : per ≤ pageSize / size)
    (hapart : ∀ i j, i < j → j < num → Apart pageSize (page i) (page j))
    (hjk : j < k) (hk : k / per < num) :
    Apart size (descAt page size per j) (descAt page size per k) := by
  rcases lt_or_ge (j / per) (k / per) with hlt | hge
  · -- on two pages
    obtain ⟨hj₁, hj₂⟩ := descAt_inside page hper hfit j
    obtain ⟨hk₁, hk₂⟩ := descAt_inside page hper hfit k
    rcases hapart _ _ hlt hk with h | h
    · exact .inl (by omega)
    · exact .inr (by omega)
  · -- on one
    have heq : j / per = k / per := Nat.le_antisymm (Nat.div_le_div_right hjk.le) hge
    have hmod : j % per + 1 ≤ k % per := by
      have h₁ := div_add_mod j per
      have h₂ := div_add_mod k per
      rw [heq] at h₁
      omega
    have hmul := mul_le_mul_right size hmod
    rw [Nat.add_mul, Nat.one_mul] at hmul
    rw [descAt, descAt, heq]
    exact .inl (by omega)

theorem Apart.ne {a b : ℕ} (h : Apart size a b) (hsize : 0 < size) : a ≠ b := by
  rintro rfl
  rcases h with h | h <;> omega

end Places

/-! ### The linking -/

/-- `k` links are made. -/
structure LinkedTo (page : Nat → Nat) (size per k : Nat) (st : LinkState) : Prop where
  numLink : st.numLink = k
  at_desc : st.p = descAt page size per k
  links : ∀ j < k, st.mem (descAt page size per j) = some (descAt page size per (j + 1))

structure PagesOk (page : Nat → Nat) (pageSize size per num : Nat) : Prop where
  per_pos : 0 < per
  size_pos : 0 < size
  fit : per ≤ pageSize / size
  apart : ∀ i j, i < j → j < num → Apart pageSize (page i) (page j)

section Linking
variable {page : ℕ → ℕ} {pageSize size per num poolElems i k left : ℕ} {st : LinkState}
  {next : Except AttachFault ℕ} {nexts : ℕ → Except AttachFault ℕ}

theorem LinkedTo.link (h : LinkedTo page size per k st) (hp : PagesOk page pageSize size per num)
    (hk : k / per < num) {target : ℕ} (ht : target = descAt page size per (k + 1)) :
    LinkedTo page size per (k + 1) ⟨update st.mem st.p (some target), target, st.numLink + 1⟩ := by
  refine ⟨by rw [h.numLink], ht, fun j hj => ?_⟩
  dsimp only
  rw [h.at_desc]
  rcases Nat.lt_succ_iff_lt_or_eq.1 hj with hj | rfl
  · have hne := (descAt_apart hp.per_pos hp.fit hp.apart hj hk).ne hp.size_pos
    rw [update_of_ne hne]
    exact h.links j hj
  · rw [update_self, ht]

theorem linkPage_full (hp : PagesOk page pageSize size per num)
    (h : LinkedTo page size per k st) (hk : k + left = (i + 1) * per) (hleft : left ≤ per)
    (hi : i < num) (hnext : next = .ok (page (i + 1))) (hend : (i + 1) * per < poolElems) :
    ∃ st', linkPage next size poolElems left st = .ok st' ∧
      LinkedTo page size per ((i + 1) * per) st' := by
  induction left generalizing k st with
  | zero => exact ⟨st, rfl, hk ▸ h⟩
  | succ left ih =>
    have hmul : (i + 1) * per = i * per + per := succ_mul i per
    have hdiv : k / per = i := Nat.div_eq_of_lt_le (by omega) (by omega)
    have htarget : (if left = 0 then next else .ok (st.p + size)) =
        .ok (descAt page size per (k + 1)) := by
      by_cases hlast : left = 0
      · have hk' : k + 1 = (i + 1) * per := by omega
        rw [if_pos hlast, hnext, descAt_succ_page (by rw [hk', mul_mod_left]), hk',
          Nat.mul_div_cancel _ hp.per_pos]
      · rw [if_neg hlast, h.at_desc, descAt_succ (i := i) (by omega) (by omega)]
    have hlink := h.link hp (hdiv ▸ hi) rfl
    rw [linkPage, htarget]
    dsimp only
    split
    · rename_i hbreak
      rw [h.numLink] at hbreak
      have hk' : k + 1 = (i + 1) * per := by omega
      exact ⟨_, rfl, hk' ▸ hlink⟩
    · exact ih hlink (by omega) (by omega)

theorem linkPage_last (hp : PagesOk page pageSize size per num)
    (h : LinkedTo page size per k st) (hk : k + left = (i + 1) * per) (hleft : left ≤ per)
    (hi : i < num) (hstart : k + 1 < poolElems) (hend : poolElems ≤ k + left) :
    ∃ st', linkPage next size poolElems left st = .ok st' ∧
      LinkedTo page size per (poolElems - 1) st' := by
  induction left generalizing k st with
  | zero => omega
  | succ left ih =>
    have hmul : (i + 1) * per = i * per + per := succ_mul i per
    have hdiv : k / per = i := Nat.div_eq_of_lt_le (by omega) (by omega)
    have htarget : (if left = 0 then next else .ok (st.p + size)) =
        .ok (descAt page size per (k + 1)) := by
      rw [if_neg (by omega), h.at_desc, descAt_succ (i := i) (by omega) (by omega)]
    have hlink := h.link hp (hdiv ▸ hi) rfl
    rw [linkPage, htarget]
    dsimp only
    split
    · rename_i hbreak
      rw [h.numLink] at hbreak
      have hk' : poolElems - 1 = k + 1 := by omega
      exact ⟨_, rfl, hk' ▸ hlink⟩
    · rename_i hgo
      rw [h.numLink] at hgo
      exact ih hlink (by omega) (by omega) (by omega) (by omega)

theorem linkPage_past {fault : AttachFault} (hk : st.numLink + 1 = poolElems) (hleft : 0 < left)
    (hnext : next = .error fault) : linkPage next size poolElems left st = .error fault := by
  have hpast : ∀ left (st : LinkState), poolElems ≤ st.numLink + 1 → 0 < left →
      linkPage next size poolElems left st = .error fault := by
    intro left
    induction left with
    | zero => exact fun _ _ h => absurd h (lt_irrefl 0)
    | succ left ih =>
      intro st hge _
      rw [linkPage]
      by_cases hlast : left = 0
      · rw [if_pos hlast, hnext]
      · rw [if_neg hlast]
        dsimp only
        rw [if_neg (by omega)]
        exact ih _ (by dsimp only; omega) (Nat.pos_of_ne_zero hlast)
  exact hpast left st hk.ge hleft

theorem linkPages_full (hp : PagesOk page pageSize size per num) (n : ℕ)
    (hnexts : ∀ j < i + n, nexts j = .ok (page (j + 1))) (hi : i + n ≤ num)
    (hend : (i + n) * per < poolElems) (h : LinkedTo page size per (i * per) st) :
    ∃ st', LinkedTo page size per ((i + n) * per) st' ∧ ∀ m,
      linkPages nexts size poolElems per (n + m) i st =
        linkPages nexts size poolElems per m (i + n) st' := by
  induction n generalizing i st with
  | zero => exact ⟨st, h, fun m => by rw [zero_add]; rfl⟩
  | succ n ih =>
    have hle : (i + 1) * per ≤ (i + (n + 1)) * per := mul_le_mul_right per (by omega)
    obtain ⟨st₁, hpage, h₁⟩ := linkPage_full hp h (succ_mul i per).symm (le_refl per)
      (by omega) (hnexts i (by omega)) (lt_of_le_of_lt hle hend)
    have hadd : i + 1 + n = i + (n + 1) := by omega
    obtain ⟨st₂, h₂, hrest⟩ := ih (i := i + 1) (fun j hj => hnexts j (by omega)) (by omega)
      (by rwa [hadd]) h₁
    refine ⟨st₂, hadd ▸ h₂, fun m => ?_⟩
    rw [show n + 1 + m = (n + m) + 1 by omega, linkPages, hpage]
    dsimp only
    rw [hrest m, hadd]

/-! ### Attach -/

theorem numPages_eq (per : ℕ) (hpool : 1 ≤ poolElems) :
    numPages per poolElems = (poolElems - 1) / per + 1 := by
  obtain ⟨n, rfl⟩ : ∃ n, poolElems = n + 1 := ⟨poolElems - 1, (Nat.sub_add_cancel hpool).symm⟩
  rw [numPages, Nat.add_sub_cancel]
  by_cases hexact : (n + 1) % per = 0
  · -- the last page is full
    rw [if_neg (not_not.2 hexact), add_zero, succ_div_of_mod_eq_zero hexact]
  · rw [if_pos hexact, succ_div_of_mod_ne_zero hexact]

theorem multiPages_eq (pageSize elementSize elementNum : ℕ) (page : ℕ → ℕ)
    (hper : pageSize / elementSize % 2 ^ 16 ≠ 0) :
    (adfOsMemMultiPagesAlloc pageSize elementSize elementNum ⟨true, fun i => some (page i)⟩).pages =
      (range (numPages (pageSize / elementSize % 2 ^ 16) elementNum)).map page := by
  have hall (num : ℕ) : (range num).filterMap (fun i => some (page i)) = (range num).map page := by
    rw [← filterMap_eq_map]
    rfl
  unfold adfOsMemMultiPagesAlloc
  dsimp only
  rw [if_neg hper, hall, length_map, length_range, if_neg (lt_irrefl _)]
  rfl

theorem next_eq (highLatency : Bool) (page : ℕ → ℕ) (num i : ℕ) (hi : i < num) :
    (if highLatency then nextCacheablePage ((range num).map page)
      else nextDmaPage ((range num).map page)) i =
      if i + 1 < num then .ok (page (i + 1)) else .error .pastPages := by
  have hhere : ((range num).map page)[i]? = some (page i) := by simp [hi]
  cases highLatency <;> by_cases hnext : i + 1 < num <;>
    simp [nextCacheablePage, nextDmaPage, hhere, hnext]

theorem threaded_of_links (place : ℕ → ℕ) (mem : ℕ → Option ℕ) (n k : ℕ)
    (hlinks : ∀ j, k ≤ j → j < k + n → mem (place j) = some (place (j + 1)))
    (hlast : mem (place (k + n)) = none) :
    Threaded mem (some (place k)) ((range' k (n + 1)).map place) := by
  induction n generalizing k with
  | zero => exact ⟨rfl, hlast⟩
  | succ n ih =>
    rw [range'_succ, map_cons]
    refine ⟨rfl, ?_⟩
    rw [hlinks k (le_refl k) (by omega)]
    refine ih (k + 1) (fun j hkj hj => hlinks j (by omega) (by omega)) ?_
    rwa [show k + 1 + n = k + (n + 1) by omega]

theorem LinkedTo.freelistRight (h : LinkedTo page size per (poolElems - 1) st)
    (hp : PagesOk page pageSize size per (numPages per poolElems)) (hpool : 1 ≤ poolElems) :
    FreelistRight pageSize
      { size := size, poolElems := poolElems, allocCnt := 0
        pages := (range (numPages per poolElems)).map page
        mem := update st.mem st.p none
        freelist := some (page 0), out := [] } := by
  have hpage : ∀ k < poolElems, k / per < numPages per poolElems := by
    intro k hk
    rw [numPages_eq _ hpool]
    exact Nat.lt_succ_of_le (Nat.div_le_div_right (Nat.le_sub_one_of_lt hk))
  have hfirst : descAt page size per 0 = page 0 := by
    rw [descAt, Nat.zero_div, Nat.zero_mod, Nat.zero_mul, Nat.add_zero]
  have hcount : poolElems - 1 + 1 = poolElems := Nat.sub_add_cancel hpool
  refine ⟨(range' 0 poolElems).map (descAt page size per), ?_, ?_, ?_, ?_⟩
  · have hthread := threaded_of_links (descAt page size per) (update st.mem st.p none)
      (poolElems - 1) 0 (fun j _ hj => ?_) ?_
    · rwa [hcount, hfirst] at hthread
    · rw [zero_add] at hj
      have hne := (descAt_apart hp.per_pos hp.fit hp.apart hj (hpage _ (by omega))).ne hp.size_pos
      rw [h.at_desc, update_of_ne hne]
      exact h.links j hj
    · rw [zero_add, h.at_desc, update_self]
  · rw [length_map, length_range']
  · rw [pairwise_map]
    refine List.Pairwise.imp_of_mem ?_ (pairwise_lt_range' (s := 0) (n := poolElems))
    intro j k _ hk hjk
    rw [mem_range'_1] at hk
    exact descAt_apart hp.per_pos hp.fit hp.apart hjk (hpage k (by omega))
  · intro desc hdesc
    obtain ⟨k, hk, rfl⟩ := mem_map.1 hdesc
    rw [mem_range'_1] at hk
    refine ⟨page (k / per), ?_, descAt_inside page hp.per_pos hp.fit k⟩
    exact mem_map.2 ⟨_, mem_range.2 (hpage k (by omega)), rfl⟩

theorem linkPages_to_last (hp : PagesOk page pageSize size per (numPages per poolElems))
    (hpool : 1 ≤ poolElems)
    (hnexts : ∀ j, j + 1 < numPages per poolElems → nexts j = .ok (page (j + 1)))
    (mem : ℕ → Option ℕ) :
    ∃ st, LinkedTo page size per ((poolElems - 1) / per * per) st ∧
      linkPages nexts size poolElems per (numPages per poolElems) 0 ⟨mem, page 0, 0⟩ =
        linkPages nexts size poolElems per 1 ((poolElems - 1) / per) st := by
  have hnum := numPages_eq per hpool
  have hend : (poolElems - 1) / per * per < poolElems :=
    lt_of_le_of_lt (div_mul_le_self _ _) (sub_one_lt_of_lt hpool)
  have hstart : LinkedTo page size per (0 * per) ⟨mem, page 0, 0⟩ := by
    rw [Nat.zero_mul]
    refine ⟨rfl, ?_, fun j hj => absurd hj (not_lt_zero j)⟩
    rw [descAt, Nat.zero_div, Nat.zero_mod, Nat.zero_mul, Nat.add_zero]
  obtain ⟨st, hst, hrest⟩ := linkPages_full hp ((poolElems - 1) / per)
    (fun j hj => hnexts j (by omega)) (by omega) (by rwa [zero_add]) hstart
  rw [zero_add] at hst hrest
  exact ⟨st, hst, by rw [hnum, hrest 1]⟩

theorem linkPages_ok (hp : PagesOk page pageSize size per (numPages per poolElems))
    (hpool : 1 ≤ poolElems) (hspare : (poolElems - 1) % per ≠ 0)
    (hnexts : ∀ j, j + 1 < numPages per poolElems → nexts j = .ok (page (j + 1)))
    (mem : ℕ → Option ℕ) :
    ∃ st, linkPages nexts size poolElems per (numPages per poolElems) 0 ⟨mem, page 0, 0⟩ = .ok st ∧
      LinkedTo page size per (poolElems - 1) st := by
  obtain ⟨st, hst, heq⟩ := linkPages_to_last hp hpool hnexts mem
  have hnum := numPages_eq per hpool
  have hdiv := div_add_mod' (poolElems - 1) per
  have hmod := mod_lt (poolElems - 1) hp.per_pos
  have hpage : ∃ st', linkPage (nexts ((poolElems - 1) / per)) size poolElems per st = .ok st' ∧
      LinkedTo page size per (poolElems - 1) st' :=
    linkPage_last hp hst (succ_mul _ per).symm (le_refl per) (by omega) (by omega) (by omega)
  obtain ⟨st', hlast, hst'⟩ := hpage
  refine ⟨st', ?_, hst'⟩
  rw [heq, linkPages, hlast]
  rfl

theorem linkPages_past (hp : PagesOk page pageSize size per (numPages per poolElems))
    (hpool : 1 ≤ poolElems) (hfirst : (poolElems - 1) % per = 0)
    (hnexts : ∀ j, j + 1 < numPages per poolElems → nexts j = .ok (page (j + 1)))
    (hpast : nexts ((poolElems - 1) / per) = .error .pastPages) (mem : ℕ → Option ℕ) :
    linkPages nexts size poolElems per (numPages per poolElems) 0 ⟨mem, page 0, 0⟩ =
      .error .pastPages := by
  obtain ⟨st, hst, heq⟩ := linkPages_to_last hp hpool hnexts mem
  have hdiv := div_add_mod' (poolElems - 1) per
  have hlinks : st.numLink + 1 = poolElems := by
    rw [hst.numLink]
    omega
  rw [heq, linkPages, linkPage_past hlinks hp.per_pos hpast]

end Linking

/-! ### Runs -/

/-- **The pool invariant.** -/
structure DescInv (poolElems : Nat) (s : TxDescs) : Prop where
  poolElems_eq : s.poolElems = poolElems
  fits : poolElems < 2 ^ 16
  places : ∃ descs, Threaded s.mem s.freelist descs ∧ (descs ++ s.out).Nodup ∧
    descs.length + s.out.length = poolElems
  allocCnt : s.allocCnt = s.out.length

theorem httTxDescFree_poolElems (s : TxDescs) (desc : ℕ) :
    (httTxDescFree s desc).poolElems = s.poolElems := by
  -- with the count as a variable the kernel does not compute it
  have hkept (mem : ℕ → Option ℕ) (freelist : Option ℕ) (allocCnt : ℕ) (out : List ℕ) :
      TxDescs.poolElems { s with
        mem := mem, freelist := freelist, allocCnt := allocCnt, out := out } = s.poolElems := rfl
  exact hkept _ _ _ _

theorem descInv_step {poolElems : ℕ} {s s' : TxDescs} {e : DescEvent}
    (h : DescInv poolElems s) (hstep : descStep s e = some s') : DescInv poolElems s' := by
  obtain ⟨descs, hthread, hnodup, hcount⟩ := h.places
  have hfits := h.fits
  cases e with
  | alloc =>
    obtain rfl := some.inj hstep
    unfold httTxDescAlloc
    cases hfree : s.freelist with
    | none => exact h
    | some desc =>
      cases descs with
      | nil => exact absurd (hfree.symm.trans hthread) (some_ne_none desc)
      | cons first descs =>
        obtain ⟨hfirst, hrest⟩ := hthread
        obtain rfl : desc = first := some.inj (hfree.symm.trans hfirst)
        rw [length_cons] at hcount
        refine ⟨h.poolElems_eq, hfits, ⟨descs, hrest, ?_, ?_⟩, ?_⟩
        · exact nodup_middle.2 hnodup
        · rw [length_cons]
          omega
        · dsimp only
          rw [h.allocCnt, length_cons]
          exact mod_eq_of_lt (by omega)
  | free desc =>
    obtain ⟨hout, rfl⟩ := guarded_eq_some.1 hstep
    have hnew : desc ∉ descs := fun hin => (nodup_append.1 hnodup).2.2 desc hin desc hout rfl
    have hlen := length_erase_of_mem hout
    have hpos := length_pos_of_mem hout
    have hperm : (desc :: descs ++ s.out.erase desc).Perm (descs ++ s.out) :=
      perm_middle.symm.trans (List.Perm.append_left descs (perm_cons_erase hout).symm)
    refine ⟨(httTxDescFree_poolElems s desc).trans h.poolElems_eq, hfits, ?_, ?_⟩
    · refine ⟨desc :: descs, hthread.push hnew, hperm.nodup_iff.2 hnodup, ?_⟩
      dsimp only [httTxDescFree]
      rw [length_cons, hlen]
      omega
    · have hsub : s.out.length + 2 ^ 16 - 1 = s.out.length - 1 + 2 ^ 16 := by omega
      rw [httTxDescFree, h.allocCnt]
      rw [hlen, hsub, add_mod_right]
      exact mod_eq_of_lt (by omega)
  | write desc word =>
    obtain ⟨hout, rfl⟩ := guarded_eq_some.1 hstep
    have hnew : desc ∉ descs := fun hin => (nodup_append.1 hnodup).2.2 desc hin desc hout rfl
    exact ⟨h.poolElems_eq, hfits, ⟨descs, hthread.update_of_notMem hnew, hnodup, hcount⟩,
      h.allocCnt⟩

theorem DescInv.countRight {poolElems : ℕ} {s : TxDescs} (h : DescInv poolElems s) :
    CountRight s := by
  obtain ⟨descs, hthread, -, hcount⟩ := h.places
  refine ⟨descs, hthread, ?_⟩
  rw [h.allocCnt, h.poolElems_eq, add_comm]
  exact hcount

theorem httTxAttach_eq (highLatency : Bool) (pageSize descSize descPoolElems : ℕ) (page : ℕ → ℕ)
    (mem : ℕ → Option ℕ) (hpool : 1 ≤ descPoolElems % 2 ^ 16)
    (hper : 1 ≤ pageSize / wordSize descSize % 2 ^ 16) :
    httTxAttach highLatency pageSize descSize ⟨true, fun i => some (page i)⟩ mem descPoolElems =
      let size := wordSize descSize
      let poolElems := descPoolElems % 2 ^ 16
      let per := pageSize / size % 2 ^ 16
      let pages := (range (numPages per poolElems)).map page
      (linkPages (if highLatency then nextCacheablePage pages else nextDmaPage pages) size poolElems
        per (numPages per poolElems) 0 ⟨mem, page 0, 0⟩).map fun st =>
          ⟨size, poolElems, 0, pages, update st.mem st.p none, some (page 0), []⟩ := by
  have hmulti := multiPages_eq pageSize (wordSize descSize) (descPoolElems % 2 ^ 16) page
    (ne_of_gt hper)
  have hhead : ((range (numPages (pageSize / wordSize descSize % 2 ^ 16)
      (descPoolElems % 2 ^ 16))).map page).head? = some (page 0) := by
    rw [numPages_eq _ hpool, range_succ_eq_map, map_cons, head?_cons]
  have hnumper : (adfOsMemMultiPagesAlloc pageSize (wordSize descSize) (descPoolElems % 2 ^ 16)
      ⟨true, fun i => some (page i)⟩).numElementPerPage =
        pageSize / wordSize descSize % 2 ^ 16 := rfl
  rw [httTxAttach]
  rw [hmulti, hhead, hnumper, length_map, length_range]
  dsimp only
  split
  · rename_i hlink
    rw [hlink]
    rfl
  · rename_i hlink
    rw [hlink]
    rfl

/-- **The pool is built and kept right exactly when the last descriptor is not the first of its page.** -/
theorem tx_desc_pool_right (highLatency : Bool) (pageSize descSize descPoolElems : Nat)
    (page : Nat → Nat) (mem : Nat → Option Nat) (hpool : 1 ≤ descPoolElems % 2 ^ 16)
    (hper : 1 ≤ pageSize / wordSize descSize % 2 ^ 16)
    (hapart : ∀ i j, i < j →
      j < numPages (pageSize / wordSize descSize % 2 ^ 16) (descPoolElems % 2 ^ 16) →
      Apart pageSize (page i) (page j)) :
    (∃ attached, httTxAttach highLatency pageSize descSize ⟨true, fun i => some (page i)⟩ mem
        descPoolElems = .ok attached ∧ FreelistRight pageSize attached ∧
      ∀ s, (descMachine attached).Reach (fun _ _ => True) s → CountRight s) ↔
    (descPoolElems % 2 ^ 16 - 1) % (pageSize / wordSize descSize % 2 ^ 16) ≠ 0 := by
  have hsize : 0 < wordSize descSize := by
    refine Nat.pos_of_ne_zero fun h => ?_
    rw [h, Nat.div_zero] at hper
    exact absurd hper (by decide)
  have hfits : descPoolElems % 2 ^ 16 < 2 ^ 16 := Nat.mod_lt _ (Nat.two_pow_pos 16)
  have hp : PagesOk page pageSize (wordSize descSize) (pageSize / wordSize descSize % 2 ^ 16)
      (numPages (pageSize / wordSize descSize % 2 ^ 16) (descPoolElems % 2 ^ 16)) :=
    ⟨hper, hsize, mod_le _ _, hapart⟩
  have hnum := numPages_eq (pageSize / wordSize descSize % 2 ^ 16) hpool
  have hnexts := next_eq highLatency page
    (numPages (pageSize / wordSize descSize % 2 ^ 16) (descPoolElems % 2 ^ 16))
  rw [httTxAttach_eq highLatency pageSize descSize descPoolElems page mem hpool hper]
  dsimp only
  generalize pageSize / wordSize descSize % 2 ^ 16 = per at *
  generalize descPoolElems % 2 ^ 16 = poolElems at *
  have hmid : ∀ j, j + 1 < numPages per poolElems →
      (if highLatency then nextCacheablePage ((List.range (numPages per poolElems)).map page)
        else nextDmaPage ((List.range (numPages per poolElems)).map page)) j = .ok (page (j + 1)) :=
    fun j hj => (hnexts j (lt_of_succ_lt hj)).trans (if_pos hj)
  constructor
  · rintro ⟨attached, hattach, -, -⟩ hfirst
    have hpast := hnexts ((poolElems - 1) / per) (by rw [hnum]; exact lt_succ_self _)
    rw [hnum, if_neg (lt_irrefl _), ← hnum] at hpast
    rw [linkPages_past hp hpool hfirst hmid hpast mem] at hattach
    cases hattach
  · intro hspare
    obtain ⟨st, hlink, hst⟩ := linkPages_ok hp hpool hspare hmid mem
    rw [hlink]
    have hright := hst.freelistRight hp hpool
    refine ⟨_, rfl, hright, fun s hs => ?_⟩
    have hinv : DescInv poolElems s :=
      hs.invariant (DescInv poolElems) ?_ fun s e s' h _ hstep => descInv_step h hstep
    · exact hinv.countRight
    rintro s rfl
    obtain ⟨descs, hthread, hlen, -, -⟩ := hright
    refine ⟨rfl, hfits, ⟨descs, hthread, ?_, ?_⟩, rfl⟩
    · rw [append_nil]
      exact hthread.nodup
    · rw [hlen]
      rfl

/-! ### A pool whose last descriptor is the first of its page -/

def pageAt (i : Nat) : Nat := 4096 * (i + 1)

/-- Five descriptors, four to a page: the fifth is linked on, and the loop goes past the pages. -/
theorem fiveDescs_fail :
    ¬ ∀ (highLatency : Bool) (pageSize descSize descPoolElems : Nat) (page : Nat → Nat)
      (mem : Nat → Option Nat), 1 ≤ descPoolElems % 2 ^ 16 →
      1 ≤ pageSize / wordSize descSize % 2 ^ 16 →
      (∀ i j, i < j →
        j < numPages (pageSize / wordSize descSize % 2 ^ 16) (descPoolElems % 2 ^ 16) →
        Apart pageSize (page i) (page j)) →
      ∃ attached, httTxAttach highLatency pageSize descSize ⟨true, fun i => some (page i)⟩ mem
          descPoolElems = .ok attached ∧ FreelistRight pageSize attached ∧
        ∀ s, (descMachine attached).Reach (fun _ _ => True) s → CountRight s := by
  intro h
  obtain ⟨attached, hattach, -⟩ := h true 4096 1024 5 pageAt (fun _ => none) (by decide) (by decide)
    (fun i j hij _ => .inl (by unfold pageAt; omega))
  have hfail : (httTxAttach true 4096 1024 ⟨true, fun i => some (pageAt i)⟩ (fun _ => none)
      5).toOption.isSome = false := by decide +kernel
  rw [hattach] at hfail
  cases hfail

theorem tx_desc_pool_right_sixDescs :
    ∃ attached, httTxAttach false 4096 1024 ⟨true, fun i => some (pageAt i)⟩ (fun _ => none) 6 =
        .ok attached ∧ FreelistRight 4096 attached ∧
      ∀ s, (descMachine attached).Reach (fun _ _ => True) s → CountRight s :=
  (tx_desc_pool_right false 4096 1024 6 pageAt (fun _ => none) (by decide) (by decide)
    fun i j hij _ => .inl (by unfold pageAt; omega)).2 (by decide)

end Qcacld.Htt
