import OpenaiRs.Pagination.Stream
import Mathlib.Data.List.Nodup
import Mathlib.Data.List.TakeWhile

/-!
# Page streams against a server that keeps to the protocol

Such a server answers a cursor with some of the items behind it, as many as it likes but at least one where there are
any, and says whether more are left. A page stream then hands on every item once and in order.
-/

namespace OpenaiRs.Pagination

open Rounds

variable {L T E : Type}

section Server

/-- The items behind a cursor. An empty cursor is not sent. -/
def behind (id : T → String) (items : List T) : Option String → List T
  | none => items
  | some cursor => if cursor = "" then items else (items.dropWhile fun item => id item ≠ cursor).tail

/-- The `last_id` of a page leads on behind its last item: it is the identifier of the item, or it names no cursor
where the identifier stands in for it. -/
def LeadsOn (listing : Listing L T) (data : List T) (lastId : L) : Prop :=
  listing.given lastId = data.getLast?.map listing.id ∨
    listing.fallsBack = true ∧ (listing.given lastId).filter (fun cursor => cursor ≠ "") = none

/-- An answer to the request for what is behind a cursor: some of it, at least one item where there are any, and
whether more is left, to which `last_id` leads on. -/
def Serves (listing : Listing L T) (items : List T) (after : Option String) (answer : Except E (ListPage L T)) : Prop :=
  ∃ (size : ℕ) (lastId : L), answer = .ok ⟨(behind listing.id items after).take (size + 1), lastId,
      decide (size + 1 < (behind listing.id items after).length)⟩ ∧
    (size + 1 < (behind listing.id items after).length →
      LeadsOn listing ((behind listing.id items after).take (size + 1)) lastId)

/-- A server with these items answers the requests that a stream makes. -/
def Honest (listing : Listing L T) (items : List T) (requests : List (Option String))
    (rounds : List (Except E (ListPage L T))) : Prop :=
  ∀ (n : ℕ) (after : Option String) (answer : Except E (ListPage L T)), requests[n]? = some after →
    rounds[n]? = some answer → Serves listing items after answer

end Server

section Cuts

variable {id : T → String} {items : List T}

theorem behind_none_or_empty {after : Option String} (h : ∀ cursor, after = some cursor → cursor = "") :
    behind id items after = items := by
  cases after with
  | none => rfl
  | some cursor => exact if_pos (h cursor rfl)

/-- Behind the cursor of an item is what follows it. -/
theorem behind_append_cons {before rest : List T} {item : T} (hnodup : ((before ++ item :: rest).map id).Nodup)
    (hne : id item ≠ "") : behind id (before ++ item :: rest) (some (id item)) = rest := by
  rw [List.map_append, List.map_cons, List.nodup_append] at hnodup
  obtain ⟨-, -, hdisjoint⟩ := hnodup
  have hbefore : ∀ other ∈ before, decide (id other ≠ id item) = true := by
    intro other hother
    apply decide_eq_true
    exact hdisjoint _ (List.mem_map_of_mem hother) _ List.mem_cons_self
  rw [behind, if_neg hne, List.dropWhile_append_of_pos hbefore, List.dropWhile_cons_of_neg (by simp), List.tail_cons]

/-- A page with more behind it ends with an item, and the rest stands behind that. -/
theorem take_eq_append_of_lt {rest : List T} {size : ℕ} (h : size + 1 < rest.length) :
    ∃ before item, rest.take (size + 1) = before ++ [item] ∧ rest = before ++ item :: rest.drop (size + 1) := by
  have hsize : size < rest.length := by omega
  refine ⟨rest.take size, rest[size], (List.take_concat_get' rest size hsize).symm, ?_⟩
  rw [List.getElem_cons_drop, List.take_append_drop]

/-- The cursor of a page with more behind it is that of its last item. -/
theorem cursor_page {listing : Listing L T} {size : ℕ} {lastId : L} {before rest : List T} {item : T}
    (hdata : rest.take (size + 1) = before ++ [item]) (hleads : LeadsOn listing (rest.take (size + 1)) lastId)
    (hne : listing.id item ≠ "") : listing.cursor ⟨rest.take (size + 1), lastId, true⟩ = some (listing.id item) := by
  have hlast : (rest.take (size + 1)).getLast?.map listing.id = some (listing.id item) := by
    rw [hdata, List.getLast?_concat, Option.map_some]
  have hkept : (some (listing.id item)).filter (fun cursor => decide (cursor ≠ "")) = some (listing.id item) :=
    Option.filter_some_pos (decide_eq_true hne)
  rw [Listing.cursor, listing.lastId_of_hasMore _ rfl, Listing.lastItemId, hlast, offered]
  obtain hnamed | ⟨hfalls, hnone⟩ := hleads
  · rw [hnamed, hlast, hkept, Option.some_or]
  · rw [hnone, if_pos hfalls, hkept, Option.none_or]

end Cuts

section Traversal

variable {listing : Listing L T} {items : List T}

theorem pages_append (events log : List (Event L T)) : pages (events ++ log) = pages events ++ pages log :=
  List.filterMap_append

theorem Honest.tail {after : Option String} {requests : List (Option String)} {answer : Except E (ListPage L T)}
    {rounds : List (Except E (ListPage L T))} (h : Honest listing items (after :: requests) (answer :: rounds)) :
    Honest listing items requests rounds :=
  fun n => h (n + 1)

/-- The first request is that of the state. -/
theorem exists_requests_cons (listing : Listing L T) (s : State) (r : Except E (ListPage L T))
    (rounds : List (Except E (ListPage L T))) :
    ∃ later, requests (drive listing.iteration s (r :: rounds)).log = s.after :: later := by
  cases hstep : listing.iteration s r with
  | again events next =>
      obtain ⟨page, cursor, -, rfl, -⟩ := iteration_again hstep
      rw [drive_again hstep]
      exact ⟨_, rfl⟩
  | done events verdict =>
      have hiterates := hstep ▸ iterates listing s r
      rw [drive_done hstep]
      cases hiterates <;> exact ⟨_, rfl⟩

/-- From a state in front of `rest`, none of which has been seen, the stream hands on `rest`. -/
theorem flatMap_pages_drive (hnodup : (items.map listing.id).Nodup) (hne : ∀ item ∈ items, listing.id item ≠ "")
    (rounds : List (Except E (ListPage L T))) (s : State) {earlier rest : List T} (hitems : items = earlier ++ rest)
    (hrest : behind listing.id items s.after = rest) (hunseen : ∀ item ∈ rest, listing.id item ∉ s.seen)
    (hhonest : Honest listing items (requests (drive listing.iteration s rounds).log) rounds)
    (hlong : rest.length ≤ rounds.length) (hsome : rounds ≠ []) :
    (drive listing.iteration s rounds).verdict = some (.ok ()) ∧
      (pages (drive listing.iteration s rounds).log).flatMap ListPage.data = rest := by
  induction rounds generalizing s earlier rest with
  | nil => exact absurd rfl hsome
  | cons r rounds ih =>
      obtain ⟨later, hrequests⟩ := exists_requests_cons listing s r rounds
      obtain ⟨size, lastId, rfl, hleads⟩ := hhonest 0 s.after r (by rw [hrequests]; rfl) rfl
      rw [hrest] at hleads hhonest ⊢
      by_cases hmore : size + 1 < rest.length
      · rw [decide_eq_true hmore] at hhonest ⊢
        obtain ⟨before, item, hdata, hsplit⟩ := take_eq_append_of_lt hmore
        have hitem : item ∈ rest := hsplit ▸ List.mem_append_right before List.mem_cons_self
        have hidne : listing.id item ≠ "" := hne item (hitems ▸ List.mem_append_right earlier hitem)
        have hcursor := cursor_page hdata (hleads hmore) hidne
        have hcut : items = (earlier ++ before) ++ item :: rest.drop (size + 1) := by
          rw [List.append_assoc, ← hsplit, hitems]
        rw [drive_again (iteration_of_cursor rfl hcursor (hunseen item hitem))] at hhonest ⊢
        rw [Run.after, pages_append, List.flatMap_append]
        have hnext := ih ⟨some (listing.id item), insert (listing.id item) s.seen⟩
          (show items = (earlier ++ before ++ [item]) ++ rest.drop (size + 1) by rw [hcut]; simp)
          (by rw [hcut] at hnodup ⊢; exact behind_append_cons hnodup hidne) ?_ hhonest.tail ?_ ?_
        · obtain ⟨hverdict, hpages⟩ := hnext
          refine ⟨hverdict, ?_⟩
          rw [hpages]
          exact (congrArg (· ++ _) (List.append_nil _)).trans (List.take_append_drop _ rest)
        · intro other hother hmem
          obtain hsame | hseen := Finset.mem_insert.mp hmem
          · rw [hcut, List.map_append, List.nodup_append] at hnodup
            have hrest := (List.nodup_cons.mp hnodup.2.1).1
            exact hrest (hsame ▸ List.mem_map_of_mem hother)
          · exact hunseen other (List.mem_of_mem_drop hother) hseen
        · rw [List.length_drop]
          rw [List.length_cons] at hlong
          omega
        · rintro rfl
          rw [List.length_cons, List.length_nil] at hlong
          omega
      · rw [decide_eq_false hmore, drive_done (iteration_of_last rfl s)]
        refine ⟨rfl, (List.append_nil _).trans ?_⟩
        exact List.take_of_length_le (by omega)

/-- Against a server that answers its requests by the protocol a stream ends without a fault and hands on every item
behind the caller's cursor, once and in the server's order. -/
theorem listPages_hands_on (listing : Listing L T) (params : ListParams)
    (haccepted : (listing.rejectsBefore && params.hasBefore) = false) {items : List T}
    (hnodup : (items.map listing.id).Nodup) (hne : ∀ item ∈ items, listing.id item ≠ "")
    (hafter : ∀ cursor, params.after = some cursor → cursor ≠ "" → cursor ∈ items.map listing.id)
    (rounds : List (Except E (ListPage L T)))
    (hhonest : Honest listing items (requests (listing.listPages params rounds).log) rounds)
    (hlong : items.length ≤ rounds.length) (hsome : rounds ≠ []) :
    (listing.listPages params rounds).verdict = some (.ok ()) ∧
      (pages (listing.listPages params rounds).log).flatMap ListPage.data = behind listing.id items params.after := by
  rw [listPages_of_accepted haccepted] at hhonest ⊢
  by_cases hstart : ∀ cursor, params.after = some cursor → cursor = ""
  · have hall : behind listing.id items params.after = items := behind_none_or_empty hstart
    refine flatMap_pages_drive hnodup hne rounds (Listing.start params)
      (show items = [] ++ behind listing.id items params.after from hall.symm) rfl ?_ hhonest ?_ hsome
    · intro item _ hmem
      obtain ⟨hcursor, hcursorne⟩ | hempty := mem_seedSeen.mp hmem
      · exact hcursorne (hstart _ hcursor)
      · exact absurd hempty (Finset.notMem_empty _)
    · rwa [hall]
  · push Not at hstart
    obtain ⟨cursor, hcursor, hcursorne⟩ := hstart
    obtain ⟨item, hitem, rfl⟩ := List.mem_map.mp (hafter cursor hcursor hcursorne)
    obtain ⟨earlier, rest, rfl⟩ := List.append_of_mem hitem
    have hrest : behind listing.id (earlier ++ item :: rest) params.after = rest := by
      rw [hcursor]
      exact behind_append_cons hnodup hcursorne
    rw [hrest]
    refine flatMap_pages_drive hnodup hne rounds (Listing.start params)
      (show earlier ++ item :: rest = (earlier ++ [item]) ++ rest by simp) hrest ?_ hhonest ?_ hsome
    · intro other hother hmem
      obtain ⟨hsame, -⟩ | hempty := mem_seedSeen.mp hmem
      · rw [hcursor, Option.some.injEq] at hsame
        rw [List.map_append, List.nodup_append] at hnodup
        exact (List.nodup_cons.mp hnodup.2.1).1 (hsame ▸ List.mem_map_of_mem hother)
      · exact absurd hempty (Finset.notMem_empty _)
    · rw [List.length_append, List.length_cons] at hlong
      omega

/-- Three Skills behind the first of four, one page for each; the `last_id` of the middle one is `null`. -/
def threePages : List (Except String (ListPage (Option String) String)) :=
  [.ok ⟨["skill_2"], some "skill_2", true⟩, .ok ⟨["skill_3"], none, true⟩, .ok ⟨["skill_4"], some "skill_4", false⟩,
    .error "not asked"]

theorem listPages_hands_on_three :
    ((Skills.listPages id).listPages ⟨some "skill_1", false⟩ threePages).verdict = some (.ok ()) ∧
      (pages ((Skills.listPages id).listPages ⟨some "skill_1", false⟩ threePages).log).flatMap ListPage.data =
        behind id ["skill_1", "skill_2", "skill_3", "skill_4"] (some "skill_1") := by
  have hrequests : requests ((Skills.listPages id).listPages ⟨some "skill_1", false⟩ threePages).log =
      [some "skill_1", some "skill_2", some "skill_3"] := by decide
  apply listPages_hands_on (Skills.listPages id) ⟨some "skill_1", false⟩ rfl (by decide) (by decide)
    (by simp [Skills.listPages]) threePages _ (by decide) (by simp [threePages])
  rw [hrequests]
  intro n after answer hafter hanswer
  match n with
  | 0 =>
      cases hafter
      cases hanswer
      exact ⟨0, some "skill_2", rfl, fun _ => .inl rfl⟩
  | 1 =>
      cases hafter
      cases hanswer
      exact ⟨0, none, rfl, fun _ => .inr ⟨rfl, rfl⟩⟩
  | 2 =>
      cases hafter
      cases hanswer
      exact ⟨0, some "skill_4", rfl, fun h => absurd h (by decide)⟩
  | n + 3 => cases hafter

end Traversal

end OpenaiRs.Pagination
