import Mathlib.Data.List.Sort
import Mathlib.Data.Finset.Insert
import Exchange.MarketData.Model

/-!
# Level-2 subscriptions

`include/client/L2Book.hpp`, `extract_pending_l2_updates` of `MDOrderBook.hpp` and
the level-2 half of `src/MarketDataServer.cpp`: the snapshot a subscriber is sent
and the batches published to subscribers.

What the server sends is queued for the client and applied by it one update at a
time, whenever it gets to it. A throttle tick can come at any moment (the code
compares clocks), and the order in which an `unordered_map` is walked is any
order, in each of the two passes.
-/

namespace Exchange.MarketData

/-- `L2UpdateT`. -/
structure L2Update where
  side : Side
  p : Int
  q : Nat
  deriving DecidableEq, Repr

/-- `struct L2Book`: `bids` and `asks`. -/
structure L2Book where
  levels : Slot → AList (fun _ : Int => Nat)

namespace L2Book

def empty : L2Book := ⟨fun _ => ∅⟩

/-- `L2Book::update`, without its warning. -/
def update (b : L2Book) (u : L2Update) : L2Book :=
  if u.side = .none then .empty
  else
    let s := L3Book.slotOf u.side
    if u.q = 0 then ⟨Function.update b.levels s ((b.levels s).erase u.p)⟩
    else ⟨Function.update b.levels s ((b.levels s).insert u.p u.q)⟩

/-- Updates in the order they come. -/
def updateAll (b : L2Book) (us : List L2Update) : L2Book := us.foldl update b

/-- `bids.begin()->first` or `asks.begin()->first`. -/
def best (b : L2Book) : Slot → Option Int
  | .bid => (b.levels .bid).keys.max?
  | .ask => (b.levels .ask).keys.min?

end L2Book

namespace L3Book

/-- The prices of a side from `begin()` on. -/
def prices (b : L3Book) : Slot → List Int
  | .bid => (b.levels .bid).keys.insertionSort (· ≥ ·)
  | .ask => (b.levels .ask).keys.insertionSort (· ≤ ·)

/-- `CreateL2Update(fbb, side, it->first, it->second.total_qty)`. -/
def quote (b : L3Book) (s : Slot) (p : Int) : L2Update := ⟨s.side, p, (b.level s p).totalQty⟩

/-- `__send_top_of_book`: an update that clears, and the first level of each side. -/
def topOfBook (b : L3Book) : List L2Update :=
  ⟨.none, 0, 0⟩ :: ((b.prices .bid).take 1).map (b.quote .bid) ++
    ((b.prices .ask).take 1).map (b.quote .ask)

/-- `send_l2_snapshot`: the top of the book, then the other levels. -/
def l2Snapshot (b : L3Book) : List L2Update :=
  b.topOfBook ++ ((b.prices .bid).drop 1).map (b.quote .bid) ++
    ((b.prices .ask).drop 1).map (b.quote .ask)

/-- The entries of `pending_l2_bids` or `pending_l2_asks`. -/
def pendingEntries (b : L3Book) (s : Slot) : List (Int × Nat) :=
  (b.pendingL2 s).entries.map fun e => (e.1, e.2)

end L3Book

theorem mem_prices {b : L3Book} {s : Slot} {p : Int} : p ∈ b.prices s ↔ p ∈ b.levels s := by
  cases s
  · exact ((List.perm_insertionSort _ _).mem_iff).trans AList.mem_keys.symm
  · exact ((List.perm_insertionSort _ _).mem_iff).trans AList.mem_keys.symm

/-- One pass over one side: the entries that are removals, or those that are not. -/
def l2Pass (removals : Bool) (s : Slot) (entries : List (Int × Nat)) : List L2Update :=
  (entries.filter fun e => decide (e.2 = 0) = removals).map fun e => ⟨s.side, e.1, e.2⟩

/-- `extract_pending_l2_updates`, for the orders in which its two passes walk the
maps: removals first. -/
def extractPendingL2Updates (first second : Slot → List (Int × Nat)) : List L2Update :=
  l2Pass true .bid (first .bid) ++ l2Pass true .ask (first .ask) ++
    (l2Pass false .bid (second .bid) ++ l2Pass false .ask (second .ask))

/-- The server with its level-2 subscribers, what was sent to each of them and not
yet applied, and their books. `unread` is the part of the journal still to be read. -/
structure L2System (ι : Type) where
  srv : Server
  unread : List OrderResponse
  l2Clients : UInt32 → Finset ι
  inbox : ι → UInt32 → List L2Update
  views : ι → UInt32 → L2Book

/-- What can happen next. -/
inductive L2Event (ι : Type)
  | process
  | tick (sid : UInt32) (first second : Slot → List (Int × Nat))
  | subscribe (client : ι) (sid : UInt32)
  | unsubscribe (client : ι) (sid : UInt32)
  | receive (client : ι) (sid : UInt32)

namespace L2System

variable {ι : Type} [DecidableEq ι]

/-- An empty server in front of a journal, and no subscriber. -/
def init (journal : List OrderResponse) : L2System ι where
  srv := ∅
  unread := journal
  l2Clients := fun _ => ∅
  inbox := fun _ _ => []
  views := fun _ _ => .empty

/-- The server's book of a symbol. -/
def book (sys : L2System ι) (sid : UInt32) : L3Book := (sys.srv.getOrCreateBook sid).book

/-- Sends updates to a client. -/
def send (sys : L2System ι) (client : ι) (sid : UInt32) (us : List L2Update) : L2System ι :=
  { sys with
    inbox := Function.update sys.inbox client
      (Function.update (sys.inbox client) sid (sys.inbox client sid ++ us)) }

/-- `publish_l2_update`. -/
def publish (sys : L2System ι) (sid : UInt32) (us : List L2Update) : L2System ι :=
  { sys with
    inbox := fun client k =>
      if k = sid ∧ client ∈ sys.l2Clients sid then sys.inbox client k ++ us else sys.inbox client k }

/-- `extract_pending_l2_updates` and `publish_l2_update` for one book. -/
def tick (sys : L2System ι) (sid : UInt32) (first second : Slot → List (Int × Nat)) :
    Option (L2System ι) :=
  match sys.srv.lookup sid with
  | none => none
  | some m =>
    if m.book.pendingEntries .bid = [] ∧ m.book.pendingEntries .ask = [] then none
    else if ∀ s ∈ [Slot.bid, Slot.ask], (first s).Perm (m.book.pendingEntries s) ∧
        (second s).Perm (m.book.pendingEntries s) then
      let m := { m with book := { m.book with pendingL2 := fun _ => ∅ } }
      some ({ sys with srv := sys.srv.insert sid m }.publish sid
        (extractPendingL2Updates first second))
    else none

/-- `handle_market_data_request`, for a level-2 subscription. -/
def subscribe (sys : L2System ι) (client : ι) (sid : UInt32) : L2System ι :=
  let m := sys.srv.getOrCreateBook sid
  let sys := { sys with srv := sys.srv.insert sid m }.send client sid m.book.l2Snapshot
  { sys with l2Clients := Function.update sys.l2Clients sid (insert client (sys.l2Clients sid)) }

/-- `handle_market_data_request`, for the end of one. -/
def unsubscribe (sys : L2System ι) (client : ι) (sid : UInt32) : L2System ι :=
  { sys with l2Clients := Function.update sys.l2Clients sid ((sys.l2Clients sid).erase client) }

/-- The client applies the next update it was sent. -/
def receive (sys : L2System ι) (client : ι) (sid : UInt32) : Option (L2System ι) :=
  match sys.inbox client sid with
  | [] => none
  | u :: us =>
    some { sys with
      inbox := Function.update sys.inbox client (Function.update (sys.inbox client) sid us)
      views := Function.update sys.views client
        (Function.update (sys.views client) sid ((sys.views client sid).update u)) }

/-- One event, if it can happen. An exception ends the server. -/
def step (sys : L2System ι) : L2Event ι → Option (L2System ι)
  | .process =>
    match sys.unread with
    | [] => none
    | r :: rs =>
      match sys.srv.processMarketUpdate r with
      | .ok srv => some { sys with srv := srv, unread := rs }
      | .error _ => none
  | .tick sid first second => sys.tick sid first second
  | .subscribe client sid => some (sys.subscribe client sid)
  | .unsubscribe client sid => some (sys.unsubscribe client sid)
  | .receive client sid => sys.receive client sid

/-- The systems a journal can lead to, events coming in any order. -/
inductive Reach (journal : List OrderResponse) : L2System ι → Prop
  | init : Reach journal (init journal)
  | step {sys sys' : L2System ι} {ev : L2Event ι} (h : Reach journal sys)
      (hstep : sys.step ev = some sys') : Reach journal sys'

end L2System

end Exchange.MarketData
