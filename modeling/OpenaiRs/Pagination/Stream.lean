import OpenaiRs.Rounds.Drive
import Mathlib.Data.Finset.Card
import Mathlib.Data.Finset.SDiff
import Mathlib.Data.List.Chain
import Mathlib.Data.String.Basic

/-!
# Page streams

`seed_seen`, `reject_before_cursor` and `next_cursor` of `openai-rs-client/src/pagination.rs`, and the streams of
pages that the resources build from them.

## Implementation notes

A round is what the server makes of one list request. The stream does not know the server, so a run is over any
answers at all.
-/

namespace OpenaiRs.Pagination

open Rounds

variable {L T E : Type}

section Cursors

inductive PaginationFault where
  | missingCursor
  | repeatedCursor
  deriving DecidableEq

inductive Error (E : Type) where
  | invalidConfiguration (message : String)
  | pagination (resource : String) (reason : PaginationFault)
  /-- What the list request itself fails with. -/
  | client (error : E)

def seedSeen (seen : Finset String) (after : Option String) : Finset String :=
  match after.filter fun value => value ≠ "" with
  | some cursor => insert cursor seen
  | none => seen

def rejectBeforeCursor (hasBefore : Bool) (resource : String) : Except (Error E) Unit :=
  if hasBefore then
    .error (.invalidConfiguration ("automatic " ++ resource ++ " pagination does not accept a before cursor"))
  else .ok ()

/-- The cursor that a page offers: its `last_id`, or else the identifier of its last item. -/
def offered (lastId lastItemId : Option String) : Option String :=
  (lastId.filter fun cursor => cursor ≠ "").or (lastItemId.filter fun cursor => cursor ≠ "")

/-- `next_cursor`, with the set of the cursors that have been seen. -/
def nextCursor (hasMore : Bool) (lastId lastItemId : Option String) (seen : Finset String) (resource : String) :
    Except (Error E) (Option String) × Finset String :=
  if !hasMore then (.ok none, seen)
  else
    match offered lastId lastItemId with
    | none => (.error (.pagination resource .missingCursor), seen)
    | some cursor =>
        if cursor ∈ seen then (.error (.pagination resource .repeatedCursor), seen)
        else (.ok (some cursor), insert cursor seen)

theorem ne_empty_of_offered {lastId lastItemId : Option String} {cursor : String}
    (h : offered lastId lastItemId = some cursor) : cursor ≠ "" := by
  obtain hlast | ⟨-, hitem⟩ := Option.or_eq_some_iff.mp h
  · simpa using (Option.filter_eq_some_iff.mp hlast).2
  · simpa using (Option.filter_eq_some_iff.mp hitem).2

theorem mem_seedSeen {seen : Finset String} {after : Option String} {cursor : String} :
    cursor ∈ seedSeen seen after ↔ after = some cursor ∧ cursor ≠ "" ∨ cursor ∈ seen := by
  rw [seedSeen]
  split
  · rename_i first hfirst
    rw [Option.filter_eq_some_iff] at hfirst
    obtain ⟨rfl, hne⟩ := hfirst
    rw [Finset.mem_insert, Option.some.injEq]
    constructor
    · rintro (rfl | hseen)
      · exact .inl ⟨rfl, by simpa using hne⟩
      · exact .inr hseen
    · rintro (⟨rfl, -⟩ | hseen)
      · exact .inl rfl
      · exact .inr hseen
  · rename_i hnone
    rw [Option.filter_eq_none_iff] at hnone
    constructor
    · exact .inr
    · rintro (⟨rfl, hne⟩ | hseen)
      · exact absurd (hnone cursor rfl) (by simpa using hne)
      · exact hseen

end Cursors

section Streams

/-- A list response, as far as a page stream reads it; its `last_id` is a string or, where the schema lets it be
`null`, an optional one. -/
structure ListPage (L T : Type) where
  data : List T
  lastId : L
  hasMore : Bool

/-- `next_after` of the pages that have it. -/
def ListPage.nextAfter (page : ListPage (Option String) T) : Option String := if page.hasMore then page.lastId else none

/-- What one resource tells the shared helpers. -/
structure Listing (L T : Type) where
  resource : String
  /-- Streams that know a `before` parameter reject it. -/
  rejectsBefore : Bool
  id : T → String
  lastId : ListPage L T → Option String
  /-- Whether the items have an identifier that can stand in for the cursor. -/
  fallsBack : Bool
  /-- The cursor of a `last_id`. -/
  given : L → Option String
  lastId_of_hasMore : ∀ page : ListPage L T, page.hasMore = true → lastId page = given page.lastId

/-- The parameters of the caller. -/
structure ListParams where
  after : Option String
  hasBefore : Bool

inductive Event (L T : Type) where
  | request (after : Option String)
  | received (page : ListPage L T)
  | yielded (page : ListPage L T)

structure State where
  after : Option String
  seen : Finset String

abbrev Verdict (E : Type) := Except (Error E) Unit

abbrev PageRun (L T E : Type) := Run (Event L T) (Verdict E)

namespace Listing

variable (listing : Listing L T)

def lastItemId (page : ListPage L T) : Option String :=
  if listing.fallsBack then page.data.getLast?.map listing.id else none

def iteration (s : State) : Except E (ListPage L T) → Iteration State (Event L T) (Verdict E)
  | .error error => .done [.request s.after] (.error (.client error))
  | .ok page =>
      match nextCursor page.hasMore (listing.lastId page) (listing.lastItemId page) s.seen listing.resource with
      | (.error error, _) => .done [.request s.after, .received page] (.error error)
      | (.ok none, _) => .done [.request s.after, .received page, .yielded page] (.ok ())
      | (.ok (some cursor), seen) => .again [.request s.after, .received page, .yielded page] ⟨some cursor, seen⟩

def start (params : ListParams) : State := ⟨params.after, seedSeen ∅ params.after⟩

/-- `list_pages`. -/
def listPages (params : ListParams) (rounds : List (Except E (ListPage L T))) : PageRun L T E :=
  match rejectBeforeCursor (listing.rejectsBefore && params.hasBefore) listing.resource with
  | .error error => ⟨[], some (.error error)⟩
  | .ok () => drive listing.iteration (start params) rounds

end Listing

/-- `Files::list_pages`. -/
def Files.listPages (id : T → String) : Listing String T :=
  ⟨"file", false, id, fun page => some page.lastId, true, some, fun _ _ => rfl⟩

/-- `VectorStores::list_pages`. -/
def VectorStores.listPages (id : T → String) : Listing String T :=
  ⟨"vector-store", true, id, fun page => some page.lastId, true, some, fun _ _ => rfl⟩

/-- `VectorStoreFiles::list_pages`. -/
def VectorStoreFiles.listPages (id : T → String) : Listing String T :=
  ⟨"vector-store file", true, id, fun page => some page.lastId, true, some, fun _ _ => rfl⟩

/-- `VectorStoreFileBatches::list_file_pages`. -/
def VectorStoreFileBatches.listFilePages (id : T → String) : Listing String T :=
  ⟨"vector-store file", true, id, fun page => some page.lastId, true, some, fun _ _ => rfl⟩

/-- `Skills::list_pages`. -/
def Skills.listPages (id : T → String) : Listing (Option String) T :=
  ⟨"Skill", false, id, ListPage.nextAfter, true, fun lastId => lastId, fun _ h => if_pos h⟩

/-- `ConversationItems::list_pages`. -/
def ConversationItems.listPages (id : T → String) : Listing String T :=
  ⟨"conversation item", false, id, fun page => some page.lastId, false, some, fun _ _ => rfl⟩

/-- `ChatKitThreads::list_item_pages`. -/
def ChatKitThreads.listItemPages (id : T → String) : Listing (Option String) T :=
  ⟨"ChatKit item", true, id, ListPage.nextAfter, false, fun lastId => lastId, fun _ h => if_pos h⟩

end Streams

section Properties

variable (listing : Listing L T)

def Listing.cursor (page : ListPage L T) : Option String := offered (listing.lastId page) (listing.lastItemId page)

def requests (log : List (Event L T)) : List (Option String) :=
  log.filterMap fun
    | .request after => some after
    | _ => none

def pages (log : List (Event L T)) : List (ListPage L T) :=
  log.filterMap fun
    | .yielded page => some page
    | _ => none

def received (log : List (Event L T)) : List (ListPage L T) :=
  log.filterMap fun
    | .received page => some page
    | _ => none

/-- What a list request has failed with, if the stream ended with that. -/
def failure : Option (Verdict E) → List E
  | some (.error (.client error)) => [error]
  | _ => []

/-- A request is answered by a page, which is handed on, and only its cursor leads to another request. -/
def Follows (earlier later : Event L T) : Prop :=
  match earlier, later with
  | .request _, .received _ => True
  | .received page, .yielded page' => page = page'
  | .yielded page, .request after => page.hasMore = true ∧ listing.cursor page = after ∧ after.isSome
  | _, _ => False

/-- Where a stream stops, and with what; `seen` are the cursors that count as requested before the log. -/
def Settled (seen : Finset String) (log : List (Event L T)) : Verdict E → Prop
  | .ok () => ∃ page, log.getLast? = some (.yielded page) ∧ page.hasMore = false
  | .error (.pagination resource reason) => resource = listing.resource ∧ ∃ page,
      log.getLast? = some (.received page) ∧ page.hasMore = true ∧
        match reason with
        | .missingCursor => listing.cursor page = none
        | .repeatedCursor => ∃ cursor, listing.cursor page = some cursor ∧
            (cursor ∈ seen ∨ some cursor ∈ requests log)
  | .error (.client _) => ∃ after, log.getLast? = some (.request after)
  | .error (.invalidConfiguration _) => False

def Event.isRequest : Event L T → Bool
  | .request _ => true
  | _ => false

/-- The cursor of an answered page is one of these. -/
def OffersAmong (cursors : Finset String) (r : Except E (ListPage L T)) : Prop :=
  ∀ page, r = .ok page → ∀ cursor, listing.cursor page = some cursor → cursor ∈ cursors

/-- A stream that goes from page to page along cursors that it has not used before, over the answers to its requests. -/
structure Walks (params : ListParams) (rounds : List (Except E (ListPage L T))) (run : PageRun L T E) : Prop where
  answered : rounds.take (requests run.log).length =
    (received run.log).map .ok ++ (failure run.verdict).map .error
  follows : run.log.IsChain (Follows listing)
  starts : ∀ after ∈ (requests run.log).head?, after = params.after
  named : ∀ after ∈ (requests run.log).tail, ∃ cursor, after = some cursor ∧ cursor ≠ ""
  fresh : (requests run.log).Nodup
  settled : ∀ verdict, run.verdict = some verdict → Settled listing ∅ run.log verdict

end Properties

section Steps

variable {listing : Listing L T} {s next : State} {r : Except E (ListPage L T)} {events : List (Event L T)}
  {verdict : Verdict E}

/-- What an iteration can be. -/
inductive Iterates (listing : Listing L T) (s : State) :
    Except E (ListPage L T) → Iteration State (Event L T) (Verdict E) → Prop
  | failed (error : E) : Iterates listing s (.error error) (.done [.request s.after] (.error (.client error)))
  | last (page : ListPage L T) : page.hasMore = false → Iterates listing s (.ok page)
      (.done [.request s.after, .received page, .yielded page] (.ok ()))
  | missing (page : ListPage L T) : page.hasMore = true → listing.cursor page = none → Iterates listing s (.ok page)
      (.done [.request s.after, .received page] (.error (.pagination listing.resource .missingCursor)))
  | repeated (page : ListPage L T) (cursor : String) : page.hasMore = true → listing.cursor page = some cursor →
      cursor ∈ s.seen → Iterates listing s (.ok page)
      (.done [.request s.after, .received page] (.error (.pagination listing.resource .repeatedCursor)))
  | again (page : ListPage L T) (cursor : String) : page.hasMore = true → listing.cursor page = some cursor →
      cursor ∉ s.seen → Iterates listing s (.ok page)
      (.again [.request s.after, .received page, .yielded page] ⟨some cursor, insert cursor s.seen⟩)

theorem iteration_of_last {page : ListPage L T} (hmore : page.hasMore = false) (s : State) :
    listing.iteration s (.ok page : Except E (ListPage L T)) =
      .done [.request s.after, .received page, .yielded page] (.ok ()) := by
  simp [Listing.iteration, nextCursor, hmore]

theorem iteration_of_cursor {page : ListPage L T} {cursor : String} (hmore : page.hasMore = true)
    (hcursor : listing.cursor page = some cursor) (hunseen : cursor ∉ s.seen) :
    listing.iteration s (.ok page : Except E (ListPage L T)) =
      .again [.request s.after, .received page, .yielded page] ⟨some cursor, insert cursor s.seen⟩ := by
  rw [Listing.cursor] at hcursor
  simp [Listing.iteration, nextCursor, hmore, hcursor, hunseen]

theorem iterates (listing : Listing L T) (s : State) (r : Except E (ListPage L T)) :
    Iterates listing s r (listing.iteration s r) := by
  cases r with
  | error error => exact .failed error
  | ok page =>
      cases hmore : page.hasMore with
      | false =>
          rw [iteration_of_last hmore]
          exact .last page hmore
      | true =>
          cases hcursor : listing.cursor page with
          | none =>
              have hoffered := hcursor
              rw [Listing.cursor] at hoffered
              simpa [Listing.iteration, nextCursor, hmore, hoffered] using Iterates.missing page hmore hcursor
          | some cursor =>
              by_cases hseen : cursor ∈ s.seen
              · have hoffered := hcursor
                rw [Listing.cursor] at hoffered
                simpa [Listing.iteration, nextCursor, hmore, hoffered, hseen] using
                  Iterates.repeated page cursor hmore hcursor hseen
              · rw [iteration_of_cursor hmore hcursor hseen]
                exact .again page cursor hmore hcursor hseen

theorem iteration_again (h : listing.iteration s r = .again events next) :
    ∃ page cursor, r = .ok page ∧ events = [.request s.after, .received page, .yielded page] ∧
      page.hasMore = true ∧ listing.cursor page = some cursor ∧ cursor ∉ s.seen ∧
        next = ⟨some cursor, insert cursor s.seen⟩ := by
  have hiterates := h ▸ iterates listing s r
  cases hiterates with
  | again page cursor hmore hcursor hseen => exact ⟨page, cursor, rfl, rfl, hmore, hcursor, hseen, rfl⟩

end Steps

section Runs

variable {listing : Listing L T}

/-- The log is a chain, and the first event of a log is the request of the state. -/
theorem follows_drive (listing : Listing L T) (s : State) (rounds : List (Except E (ListPage L T))) :
    (drive listing.iteration s rounds).log.IsChain (Follows listing) ∧
      ∀ e ∈ (drive listing.iteration s rounds).log.head?, e = .request s.after := by
  apply drive_induction (motive := fun (s : State) (run : PageRun L T E) =>
    run.log.IsChain (Follows listing) ∧ ∀ e ∈ run.log.head?, e = .request s.after)
  · intro s
    exact ⟨List.isChain_nil, by simp⟩
  · intro s r events next run hstep ⟨hchain, hhead⟩
    obtain ⟨page, cursor, -, rfl, hmore, hcursor, -, rfl⟩ := iteration_again hstep
    refine ⟨List.isChain_append.mpr ⟨?_, hchain, ?_⟩, by simp [Run.after]⟩
    · simp [Follows]
    · intro e he e' he'
      obtain rfl := Option.some.inj he
      obtain rfl := hhead e' he'
      exact ⟨hmore, hcursor, rfl⟩
  · intro s r events verdict hstep
    have hiterates := hstep ▸ iterates listing s r
    cases hiterates <;> simp [Follows]

/-- Behind the first request of a state come cursors that it has not seen. -/
theorem requests_drive (listing : Listing L T) (s : State) (rounds : List (Except E (ListPage L T))) :
    ∃ later, requests (drive listing.iteration s rounds).log = [] ∧ later = [] ∨
      requests (drive listing.iteration s rounds).log = s.after :: later.map some ∧ later.Nodup ∧
        ∀ cursor ∈ later, cursor ≠ "" ∧ cursor ∉ s.seen := by
  apply drive_induction (motive := fun (s : State) (run : PageRun L T E) =>
    ∃ later, requests run.log = [] ∧ later = [] ∨ requests run.log = s.after :: later.map some ∧ later.Nodup ∧
      ∀ cursor ∈ later, cursor ≠ "" ∧ cursor ∉ s.seen)
  · intro s
    exact ⟨[], .inl ⟨rfl, rfl⟩⟩
  · intro s r events next run hstep ⟨later, hrun⟩
    obtain ⟨page, cursor, -, rfl, -, hcursor, hunseen, rfl⟩ := iteration_again hstep
    have hne : cursor ≠ "" := ne_empty_of_offered hcursor
    have hcons : ∀ log : List (Event L T),
        requests ([.request s.after, .received page, .yielded page] ++ log) = s.after :: requests log := fun _ => rfl
    obtain ⟨hnone, -⟩ | ⟨hrequests, hnodup, hfresh⟩ := hrun
    · refine ⟨[], .inr ⟨?_, List.nodup_nil, List.forall_mem_nil _⟩⟩
      rw [Run.after, hcons, hnone, List.map_nil]
    · refine ⟨cursor :: later, .inr ⟨?_, ?_, ?_⟩⟩
      · rw [Run.after, hcons, hrequests, List.map_cons]
      · refine List.nodup_cons.mpr ⟨fun hmem => ?_, hnodup⟩
        exact (hfresh cursor hmem).2 (Finset.mem_insert_self _ _)
      · refine List.forall_mem_cons.mpr ⟨⟨hne, hunseen⟩, fun other hother => ?_⟩
        obtain ⟨hother, hnew⟩ := hfresh other hother
        exact ⟨hother, fun hseen => hnew (Finset.mem_insert_of_mem hseen)⟩
  · intro s r events verdict hstep
    refine ⟨[], .inr ?_⟩
    have hiterates := hstep ▸ iterates listing s r
    cases hiterates <;> exact ⟨rfl, List.nodup_nil, List.forall_mem_nil _⟩

theorem getLast?_append_of_some {earlier log : List (Event L T)} {e : Event L T} (h : log.getLast? = some e) :
    (earlier ++ log).getLast? = some e := by
  rw [List.getLast?_append, h, Option.some_or]

theorem requests_append (earlier log : List (Event L T)) : requests (earlier ++ log) = requests earlier ++ requests log :=
  List.filterMap_append

/-- Events in front of a log change nothing, if what counts as requested is requested there. -/
theorem Settled.append {seen seen' : Finset String} {earlier log : List (Event L T)} {verdict : Verdict E}
    (h : Settled listing seen log verdict) (hseen : ∀ cursor ∈ seen, cursor ∈ seen' ∨ some cursor ∈ requests earlier) :
    Settled listing seen' (earlier ++ log) verdict := by
  cases verdict with
  | ok _ =>
      obtain ⟨page, hlast, hmore⟩ := h
      exact ⟨page, getLast?_append_of_some hlast, hmore⟩
  | error error =>
      cases error with
      | invalidConfiguration => exact h
      | client error =>
          obtain ⟨after, hlast⟩ := h
          exact ⟨after, getLast?_append_of_some hlast⟩
      | pagination resource reason =>
          obtain ⟨hresource, page, hlast, hmore, hreason⟩ := h
          refine ⟨hresource, page, getLast?_append_of_some hlast, hmore, ?_⟩
          cases reason with
          | missingCursor => exact hreason
          | repeatedCursor =>
              obtain ⟨cursor, hcursor, hused⟩ := hreason
              refine ⟨cursor, hcursor, ?_⟩
              rw [requests_append, List.mem_append]
              obtain hused | hrequested := hused
              · exact (hseen cursor hused).imp_right .inl
              · exact .inr (.inr hrequested)

/-- The cursors that a state has seen count as requested, its own one as being requested. -/
theorem settled_drive (listing : Listing L T) (s : State) (rounds : List (Except E (ListPage L T))) :
    ∀ verdict, (drive listing.iteration s rounds).verdict = some verdict →
      ∀ seen : Finset String, (∀ cursor ∈ s.seen, cursor ∈ seen ∨ s.after = some cursor) →
        Settled listing seen (drive listing.iteration s rounds).log verdict := by
  apply drive_induction (motive := fun (s : State) (run : PageRun L T E) => ∀ verdict, run.verdict = some verdict →
    ∀ seen : Finset String, (∀ cursor ∈ s.seen, cursor ∈ seen ∨ s.after = some cursor) →
      Settled listing seen run.log verdict)
  · intro s verdict h
    cases h
  · intro s r events next run hstep hrun verdict h seen hseen
    obtain ⟨page, cursor, -, rfl, -, -, -, rfl⟩ := iteration_again hstep
    have hlater : Settled listing s.seen run.log verdict := by
      apply hrun verdict h
      intro other hother
      obtain rfl | hother := Finset.mem_insert.mp hother
      · exact .inr rfl
      · exact .inl hother
    apply hlater.append
    intro other hother
    exact (hseen other hother).imp_right fun hafter => List.mem_cons.mpr (.inl hafter.symm)
  · intro s r events verdict hstep verdict' h seen hseen
    obtain rfl := Option.some.inj h
    have hiterates := hstep ▸ iterates listing s r
    cases hiterates with
    | failed error => exact ⟨s.after, rfl⟩
    | last page hmore => exact ⟨page, rfl, hmore⟩
    | missing page hmore hcursor => exact ⟨rfl, page, rfl, hmore, hcursor⟩
    | repeated page cursor hmore hcursor hmem =>
        refine ⟨rfl, page, rfl, hmore, cursor, hcursor, ?_⟩
        exact (hseen cursor hmem).imp_right fun hafter => List.mem_cons.mpr (.inl hafter.symm)

/-- What leads on uses up one of the cursors that are left. -/
theorem card_sdiff_lt_of_again {cursors : Finset String} {s next : State} {r : Except E (ListPage L T)}
    {events : List (Event L T)} (hr : OffersAmong listing cursors r) (hstep : listing.iteration s r = .again events next) :
    (cursors \ next.seen).card < (cursors \ s.seen).card := by
  obtain ⟨page, cursor, hpage, -, -, hcursor, hunseen, rfl⟩ := iteration_again hstep
  apply Finset.card_lt_card
  refine ⟨Finset.sdiff_subset_sdiff (Finset.Subset.refl _) (Finset.subset_insert _ _), fun hsubset => ?_⟩
  have hmem := hsubset (Finset.mem_sdiff.mpr ⟨hr page hpage cursor hcursor, hunseen⟩)
  exact (Finset.mem_sdiff.mp hmem).2 (Finset.mem_insert_self _ _)

theorem verdict_isSome_of_cursors {cursors : Finset String} (s : State) {rounds : List (Except E (ListPage L T))}
    (hrounds : ∀ r ∈ rounds, OffersAmong listing cursors r) (hlong : (cursors \ s.seen).card < rounds.length) :
    (drive listing.iteration s rounds).verdict.isSome :=
  verdict_isSome_of_measure _ (fun s => (cursors \ s.seen).card)
    (fun _ _ _ _ hr hstep => card_sdiff_lt_of_again hr hstep) hrounds hlong

theorem length_requests (log : List (Event L T)) : (requests log).length = log.countP Event.isRequest := by
  induction log with
  | nil => rfl
  | cons e log ih =>
      cases e with
      | request after => exact (congrArg (· + 1) ih).trans (List.countP_cons_of_pos rfl).symm
      | received page => exact ih.trans (List.countP_cons_of_neg Bool.false_ne_true).symm
      | yielded page => exact ih.trans (List.countP_cons_of_neg Bool.false_ne_true).symm

theorem length_requests_le {cursors : Finset String} (s : State) {rounds : List (Except E (ListPage L T))}
    (hrounds : ∀ r ∈ rounds, OffersAmong listing cursors r) :
    (requests (drive listing.iteration s rounds).log).length ≤ (cursors \ s.seen).card + 1 := by
  rw [length_requests]
  apply countP_log_le _ (fun s => (cursors \ s.seen).card + 1) _ _ s hrounds
  · intro s r events next hr hstep
    have hless := card_sdiff_lt_of_again hr hstep
    obtain ⟨page, cursor, -, rfl, -⟩ := iteration_again hstep
    have hone : List.countP Event.isRequest [.request s.after, .received page, .yielded page] = 1 := rfl
    omega
  · intro s r events verdict _ hstep
    have hiterates := hstep ▸ iterates listing s r
    cases hiterates <;> simp [List.countP_cons, Event.isRequest]

end Runs

section Walk

variable {listing : Listing L T}

theorem listPages_of_accepted {params : ListParams}
    (h : (listing.rejectsBefore && params.hasBefore) = false) (rounds : List (Except E (ListPage L T))) :
    listing.listPages params rounds = drive listing.iteration (Listing.start params) rounds := by
  rw [Listing.listPages, rejectBeforeCursor, h]
  rfl

/-- The requests are answered by the rounds in their order, the last one possibly by an error. -/
theorem answered_drive (listing : Listing L T) (s : State) (rounds : List (Except E (ListPage L T))) :
    rounds.take (requests (drive listing.iteration s rounds).log).length =
      (received (drive listing.iteration s rounds).log).map .ok ++
        (failure (drive listing.iteration s rounds).verdict).map .error := by
  induction rounds generalizing s with
  | nil => rfl
  | cons r rounds ih =>
      cases hstep : listing.iteration s r with
      | again events next =>
          obtain ⟨page, cursor, rfl, rfl, -⟩ := iteration_again hstep
          rw [drive_again hstep]
          exact congrArg (Except.ok page :: ·) (ih next)
      | done events verdict =>
          have hiterates := hstep ▸ iterates listing s r
          rw [drive_done hstep]
          cases hiterates <;> rfl

theorem walks_drive (listing : Listing L T) (params : ListParams) (rounds : List (Except E (ListPage L T))) :
    Walks listing params rounds (drive listing.iteration (Listing.start params) rounds) := by
  obtain ⟨hfollows, hhead⟩ := follows_drive listing (Listing.start params) rounds
  have hsettled := settled_drive listing (Listing.start params) rounds
  obtain ⟨later, ⟨hnone, -⟩ | ⟨hrequests, hnodup, hfresh⟩⟩ :=
    requests_drive listing (Listing.start params) rounds
  all_goals refine ⟨answered_drive listing _ rounds, hfollows, ?_, ?_, ?_, fun verdict hverdict => hsettled verdict hverdict ∅ fun cursor hcursor => ?_⟩
  · simp [hnone]
  · simp [hnone]
  · simp [hnone]
  · obtain ⟨hafter, -⟩ | hempty := mem_seedSeen.mp hcursor
    · exact .inr hafter
    · exact .inl hempty
  · intro after hafter
    rw [hrequests] at hafter
    exact (Option.some.inj hafter).symm
  · intro after hafter
    rw [hrequests, List.tail_cons] at hafter
    obtain ⟨cursor, hcursor, rfl⟩ := List.mem_map.mp hafter
    exact ⟨cursor, rfl, (hfresh cursor hcursor).1⟩
  · rw [hrequests, List.nodup_cons]
    refine ⟨fun hmem => ?_, hnodup.map (Option.some_injective _)⟩
    obtain ⟨cursor, hcursor, hafter⟩ := List.mem_map.mp hmem
    obtain ⟨hne, hunseen⟩ := hfresh cursor hcursor
    exact hunseen (mem_seedSeen.mpr (.inl ⟨hafter.symm, hne⟩))
  · obtain ⟨hafter, -⟩ | hempty := mem_seedSeen.mp hcursor
    · exact .inr hafter
    · exact .inl hempty

/-- Whatever a server answers, a stream without a `before` cursor that it would refuse goes from page to page along
cursors that are new, not empty and the page's own, and stops exactly where a request fails, or where a page has
nothing behind it or does not lead on. Among finitely many cursors it does stop. -/
theorem listPages_walks (listing : Listing L T) (params : ListParams)
    (haccepted : (listing.rejectsBefore && params.hasBefore) = false) (rounds : List (Except E (ListPage L T))) :
    Walks listing params rounds (listing.listPages params rounds) ∧
      ∀ cursors : Finset String, (∀ r ∈ rounds, OffersAmong listing cursors r) →
        (cursors.card < rounds.length → (listing.listPages params rounds).verdict.isSome) ∧
          (requests (listing.listPages params rounds).log).length ≤ cursors.card + 1 := by
  rw [listPages_of_accepted haccepted]
  refine ⟨walks_drive listing params rounds, fun cursors hrounds => ⟨fun hlong => ?_, ?_⟩⟩
  · apply verdict_isSome_of_cursors _ hrounds
    exact Nat.lt_of_le_of_lt (Finset.card_le_card Finset.sdiff_subset) hlong
  · apply Nat.le_trans (length_requests_le _ hrounds)
    exact Nat.add_le_add_right (Finset.card_le_card Finset.sdiff_subset) 1

/-- A server that names the caller's own cursor as the next one. -/
def backwards : List (Except String (ListPage String String)) := [.ok ⟨["file-2"], "file-1", true⟩]

theorem listPages_walks_backwards :
    Walks (Files.listPages id) ⟨some "file-1", false⟩ backwards
        ((Files.listPages id).listPages ⟨some "file-1", false⟩ backwards) ∧
      ∀ cursors : Finset String, (∀ r ∈ backwards, OffersAmong (Files.listPages id) cursors r) →
        (cursors.card < backwards.length →
          ((Files.listPages id).listPages ⟨some "file-1", false⟩ backwards).verdict.isSome) ∧
        (requests ((Files.listPages id).listPages ⟨some "file-1", false⟩ backwards).log).length ≤ cursors.card + 1 :=
  listPages_walks (Files.listPages id) ⟨some "file-1", false⟩ rfl backwards

end Walk

end OpenaiRs.Pagination
