import RocketSocket.Lib.Word

/-!
# Walking pages

`count`, `offset` and `total` paging of `rocketsocket-rest`.  A response reports how many rows it
has, how many it skipped and how many there are, and the next request is made from that.  The
server may hand out fewer rows than were asked for, and at every request another number.

## Main definitions

* `Pagination`, `PageInfo` — a page request, and what a response says of its page.
* `PageInfo.nextPage` — the request for the next page.
* `Page`, `walk` — a response with its rows, and the walk through them all.
* `ResultSet`, `ResultSet.answer` — a server with a fixed set of rows.

## Main results

* `PageInfo.nextPage_exact` — nothing is saturated in the request for a next page.
* `ResultSet.walk_from` — the walk from any row on gives the rows from there.
* `walk_visits_once` — **walking pages ends and gives every row once.**
-/

namespace RocketSocket

open Machine

/-! ### Requests and responses -/

/-- `NonZeroU32`. -/
abbrev NonZeroU32 := { n : UInt32 // n ≠ 0 }

/-- `NonZeroU32::new`. -/
def NonZeroU32.ofWord (n : UInt32) : Option NonZeroU32 := if h : n ≠ 0 then some ⟨n, h⟩ else none

/-- A page request. -/
structure Pagination where
  /-- Rows to skip. -/
  offset : UInt32
  /-- Rows to return.  Never zero, which would ask for all of them. -/
  count : NonZeroU32
  deriving DecidableEq

namespace Pagination

/-- A first page of `count` rows. -/
def first (count : NonZeroU32) : Pagination := ⟨0, count⟩

/-- Skip `offset` rows. -/
def withOffset (p : Pagination) (offset : UInt32) : Pagination := { p with offset := offset }

/-- The next page of the same size. -/
def nextPage (p : Pagination) : Pagination :=
  { p with offset := Word.saturatingAdd p.offset p.count }

end Pagination

/-- The paging members a list response carries alongside its items. -/
structure PageInfo where
  /-- Rows in this response. -/
  count : UInt32 := 0
  /-- Rows skipped to produce it. -/
  offset : UInt32 := 0
  /-- Rows in the full result set. -/
  total : UInt32 := 0
  deriving DecidableEq, Repr

namespace PageInfo

/-- Whether more rows exist beyond this page. -/
def hasMore (info : PageInfo) : Bool := Word.saturatingAdd info.offset info.count < info.total

/-- The request for the next page, or `none` at the end of the collection or after an empty
page. -/
def nextPage (info : PageInfo) : Option Pagination :=
  if !info.hasMore then none
  else (NonZeroU32.ofWord info.count).map fun count =>
    (Pagination.first count).withOffset (Word.saturatingAdd info.offset info.count)

variable {info : PageInfo} {next : Pagination}

theorem hasMore_iff : info.hasMore = true ↔
    info.offset.toNat + info.count.toNat < info.total.toNat := by
  have htotal := info.total.toNat_lt
  rw [hasMore, decide_eq_true_iff, UInt32.lt_iff_toNat_lt, Word.toNat_saturatingAdd]
  omega

/-- When there is a next page, and which. -/
theorem nextPage_eq_some : info.nextPage = some next ↔
    info.offset.toNat + info.count.toNat < info.total.toNat ∧ next.count.val = info.count ∧
      next.offset.toNat = info.offset.toNat + info.count.toNat := by
  have htotal := info.total.toNat_lt
  rw [← hasMore_iff]
  cases hmore : info.hasMore with
  | false => simp [nextPage, hmore]
  | true =>
    -- There is more, so the sum is below the total and does not saturate.
    have hfits := hasMore_iff.mp hmore
    have hsum : (Word.saturatingAdd info.offset info.count).toNat =
        info.offset.toNat + info.count.toNat := by
      rw [Word.toNat_saturatingAdd]
      omega
    have hnext : info.nextPage = (NonZeroU32.ofWord info.count).map fun count =>
        (Pagination.first count).withOffset (Word.saturatingAdd info.offset info.count) := by
      rw [nextPage, hmore]
      rfl
    rw [hnext, Option.map_eq_some_iff]
    constructor
    · rintro ⟨count, hcount, rfl⟩
      unfold NonZeroU32.ofWord at hcount
      -- A count of zero is refused, and there is no next page.
      split at hcount
      · cases hcount
        exact ⟨rfl, rfl, hsum⟩
      · cases hcount
    · rintro ⟨-, hcount, hoffset⟩
      have hne : info.count ≠ 0 := hcount ▸ next.count.property
      refine ⟨⟨info.count, hne⟩, dif_pos hne, ?_⟩
      have heq : Word.saturatingAdd info.offset info.count = next.offset :=
        UInt32.toNat_inj.mp (hsum.trans hoffset.symm)
      obtain ⟨offset, count⟩ := next
      obtain rfl : ⟨info.count, hne⟩ = count := Subtype.ext hcount.symm
      obtain rfl : _ = offset := heq
      rfl

/-- There is one if there are more rows and the page was not empty. -/
theorem exists_nextPage (hmore : info.offset.toNat + info.count.toNat < info.total.toNat)
    (hcount : info.count ≠ 0) : ∃ next, info.nextPage = some next := by
  have htotal := info.total.toNat_lt
  refine ⟨⟨UInt32.ofNat (info.offset.toNat + info.count.toNat), info.count, hcount⟩,
    nextPage_eq_some.mpr ⟨hmore, rfl, UInt32.toNat_ofNat_of_lt' ?_⟩⟩
  show _ < 4294967296
  omega

/-- **Nothing is saturated** in the request for a next page, whatever the response says: it is
further on, and there are rows there. -/
theorem nextPage_exact (h : info.nextPage = some next) :
    next.offset.toNat = info.offset.toNat + info.count.toNat ∧ info.offset < next.offset ∧
      next.offset < info.total := by
  obtain ⟨hmore, hcount, hoffset⟩ := nextPage_eq_some.mp h
  have hpos : info.count.toNat ≠ 0 := by
    intro hzero
    exact next.count.property (hcount.trans (UInt32.toNat_inj.mp hzero))
  rw [UInt32.lt_iff_toNat_lt, UInt32.lt_iff_toNat_lt]
  omega

end PageInfo

/-! ### The walk -/

/-- A response: its rows, and what it says of them. -/
structure Page (α : Type) where
  rows : List α
  info : PageInfo

section Walk

variable {α : Type}

/-- Follows `next_page`: the responses, if there are no more than `fuel`.  The server answers by
the number of the request and the request. -/
def walk (server : ℕ → Pagination → Page α) : ℕ → ℕ → Pagination → Option (List (Page α))
  | 0, _, _ => none
  | fuel + 1, i, request =>
    match (server i request).info.nextPage with
    | none => some [server i request]
    | some next => (walk server fuel (i + 1) next).map (server i request :: ·)

/-- A fixed set of rows, whose number is a word. -/
structure ResultSet (α : Type) where
  rows : List α
  fits : rows.length < 4294967296

namespace ResultSet

/-- The rows that are handed out: no more than are asked for, than the server hands out at once,
and than there are. -/
def served (r : ResultSet α) (limit : ℕ) (request : Pagination) : List α :=
  (r.rows.drop request.offset.toNat).take (min request.count.val.toNat limit)

/-- The answer to a request. -/
def answer (r : ResultSet α) (limit : ℕ) (request : Pagination) : Page α where
  rows := r.served limit request
  info :=
    { count := UInt32.ofNat (r.served limit request).length
      offset := request.offset
      total := UInt32.ofNat r.rows.length }

variable (r : ResultSet α) (limit : ℕ) (request : Pagination)

theorem length_served : (r.served limit request).length =
    min (min request.count.val.toNat limit) (r.rows.length - request.offset.toNat) := by
  rw [served, List.length_take, List.length_drop]

theorem toNat_count : (r.answer limit request).info.count.toNat =
    (r.served limit request).length := by
  have hfits := r.fits
  have hlength := r.length_served limit request
  exact UInt32.toNat_ofNat_of_lt' (by show _ < 4294967296; omega)

theorem toNat_total : (r.answer limit request).info.total.toNat = r.rows.length :=
  UInt32.toNat_ofNat_of_lt' r.fits

/-- The rows from an offset on are those of the answer and those after them. -/
theorem served_append : r.served limit request ++
    r.rows.drop (request.offset.toNat + (r.served limit request).length) =
      r.rows.drop request.offset.toNat := by
  have htake : r.served limit request =
      (r.rows.drop request.offset.toNat).take (r.served limit request).length := by
    rw [served, List.length_take, ← List.take_eq_take_min]
  calc r.served limit request ++
        r.rows.drop (request.offset.toNat + (r.served limit request).length)
      = (r.rows.drop request.offset.toNat).take (r.served limit request).length ++
          (r.rows.drop request.offset.toNat).drop (r.served limit request).length := by
        rw [← htake, List.drop_drop]
    _ = r.rows.drop request.offset.toNat := List.take_append_drop _ _

/-- What a server with these rows answers, whose limit is another at every request. -/
def serve (limits : ℕ → Pagination → ℕ) (i : ℕ) (request : Pagination) : Page α :=
  r.answer (limits i request) request

variable {limits : ℕ → Pagination → ℕ}

/-- **The walk from any row on gives the rows from there.**  Every request that is not the last
leaves fewer rows to come. -/
theorem walk_from (hlimits : ∀ i request, 1 ≤ limits i request) (fuel i : ℕ)
    (request : Pagination) (hle : request.offset.toNat ≤ r.rows.length)
    (hfuel : r.rows.length - request.offset.toNat < fuel) :
    ∃ pages, walk (r.serve limits) fuel i request = some pages ∧
      pages.flatMap Page.rows = r.rows.drop request.offset.toNat := by
  induction fuel generalizing i request with
  | zero => omega
  | succ fuel ih =>
    have hlength := r.length_served (limits i request) request
    have happend := r.served_append (limits i request) request
    have hpos := hlimits i request
    have hcount : request.count.val.toNat ≠ 0 := fun hzero =>
      request.count.property (UInt32.toNat_inj.mp hzero)
    -- What the response says is what it has.
    have hinfo : (r.serve limits i request).info.count.toNat =
        (r.served (limits i request) request).length := r.toNat_count _ _
    have htotal : (r.serve limits i request).info.total.toNat = r.rows.length := r.toNat_total _ _
    cases hnext : (r.serve limits i request).info.nextPage with
    | none =>
      refine ⟨[r.serve limits i request], ?_, ?_⟩
      · rw [walk, hnext]
      · -- The walk ends behind the last row: a page is empty only there.
        have hend : r.rows.length ≤
            request.offset.toNat + (r.served (limits i request) request).length := by
          by_contra hlt
          have hsome : (r.serve limits i request).info.count ≠ 0 := by
            intro hzero
            rw [hzero] at hinfo
            have hserved : (0 : UInt32).toNat = 0 := rfl
            omega
          obtain ⟨next, hsome⟩ := PageInfo.exists_nextPage
            (show request.offset.toNat + _ < _ by omega) hsome
          rw [hnext] at hsome
          cases hsome
        rw [List.drop_eq_nil_of_le hend, List.append_nil] at happend
        rw [List.flatMap_singleton, ← happend]
        rfl
    | some next =>
      obtain ⟨hmore, hcount', hoffset⟩ := PageInfo.nextPage_eq_some.mp hnext
      have hoffset' : next.offset.toNat =
          request.offset.toNat + (r.served (limits i request) request).length := by
        rw [hoffset, hinfo]
        rfl
      have hserved : (r.served (limits i request) request).length ≠ 0 := by
        rw [← hinfo, ← hcount']
        exact fun hzero => next.count.property (UInt32.toNat_inj.mp hzero)
      obtain ⟨pages, hwalk, hrows⟩ := ih (i + 1) next (by omega) (by omega)
      refine ⟨r.serve limits i request :: pages, ?_, ?_⟩
      · rw [walk, hnext]
        show (walk _ fuel (i + 1) next).map _ = _
        rw [hwalk, Option.map_some]
      · rw [List.flatMap_cons, hrows, hoffset']
        exact happend

end ResultSet

/-- **Walking pages ends and gives every row once**, in order: against every server with a fixed
set of rows, whatever part of what it was asked for it hands out, if it hands out any.  There is
no more than one request for each row, and one that finds no more. -/
theorem walk_visits_once (r : ResultSet α) (limits : ℕ → Pagination → ℕ)
    (hlimits : ∀ i request, 1 ≤ limits i request) (count : NonZeroU32) :
    (∃ pages, walk (r.serve limits) (r.rows.length + 1) 0 (Pagination.first count) = some pages ∧
      pages.flatMap Page.rows = r.rows) ∧
    ∀ (info : PageInfo) (next : Pagination), info.nextPage = some next →
      next.offset.toNat = info.offset.toNat + info.count.toNat ∧ info.offset < next.offset ∧
        next.offset < info.total := by
  refine ⟨?_, fun info next hnext => PageInfo.nextPage_exact hnext⟩
  exact r.walk_from hlimits (r.rows.length + 1) 0 (Pagination.first count) (Nat.zero_le _)
    (by omega)

/-- Five rows, of which the server first hands out two at once, and then one. -/
theorem walk_visits_once_five : ∃ pages,
    walk ((⟨[1, 2, 3, 4, 5], by decide⟩ : ResultSet ℕ).serve fun i _ => if i = 0 then 2 else 1) 6 0
      (Pagination.first ⟨50, by decide⟩) = some pages ∧
    pages.flatMap Page.rows = [1, 2, 3, 4, 5] := by
  refine (walk_visits_once ⟨[1, 2, 3, 4, 5], by decide⟩ _ (fun i _ => ?_) ⟨50, by decide⟩).1
  split <;> decide

end Walk

end RocketSocket
