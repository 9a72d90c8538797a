import Exchange.Client.Account
import Exchange.Gateway.Prices
import Exchange.Gateway.Sessions
import Exchange.Lib.Channel
import Exchange.Lib.Lockstep

/-!
# `OrderEntryClient`

The order entry side of a client, as the code computes it: `src/OrderEntryClient.cpp`, with
`validate_price` of `src/TradingClientBase.cpp`. A call sends messages, or throws. The handler that
`start` hands to `run_async` is `onMessage`; it may throw as well, and does so on the thread of the
connection, where nothing catches it.

The clock comes with the call. The log lines are left out, and so is the user name of a logon, which
the server does not read. Two threads call into the client, the owner's and the connection's.
`o_seq_num_` is shared between them without a lock: each call is taken to run from its start to its
end.
-/

namespace Exchange

open Gateway

/-- `class OrderEntryClient`, with what it has from `TradingClientBase`. -/
structure OrderEntryClient where
  clientId : UInt32
  symbolIds : List UInt32
  symbolsInfo : UInt32 → Option SymbolInfo
  running : Bool
  nextId : UInt32
  oSeqNum : Nat
  iSeqNum : Nat
  ready : Bool
  account : ClientAccount

/-- `what()` of the exception the handler throws over a gap. -/
def sequenceNumberMismatch : String := "Sequence number mismatch"

namespace OrderEntryClient

/-- What a call leaves and sends, or the exception it throws. -/
abbrev Outcome := Except String (OrderEntryClient × List ClientRequest)

/-- The constructor. -/
def create (clientId : UInt32) (symbolIds : List UInt32) (symbolsInfo : UInt32 → Option SymbolInfo) :
    OrderEntryClient where
  clientId := clientId
  symbolIds := symbolIds
  symbolsInfo := symbolsInfo
  running := true
  nextId := 1000001
  oSeqNum := 0
  iSeqNum := 0
  ready := false
  account := .empty

/-- A message with `++o_seq_num_`. -/
def sendNext (c : OrderEntryClient) (data : ClientRequestData) : OrderEntryClient × List ClientRequest :=
  ({ c with oSeqNum := c.oSeqNum + 1 }, [⟨data, c.oSeqNum + 1⟩])

/-- The logon that ends `start`. -/
def logOn (c : OrderEntryClient) : OrderEntryClient × List ClientRequest :=
  c.sendNext (.admin .logOn c.clientId 0)

/-- `stop`. -/
def stop (c : OrderEntryClient) : OrderEntryClient := { c with running := false }

/-- `request_open_orders`. -/
def requestOpenOrders (c : OrderEntryClient) : OrderEntryClient × List ClientRequest :=
  c.sendNext (.openOrders c.clientId)

/-- `request_position`, and `query_position` is the same. -/
def requestPosition (c : OrderEntryClient) (symbolId : UInt32) : OrderEntryClient × List ClientRequest :=
  c.sendNext (.position c.clientId symbolId)

/-- `request_position` for one symbol after the other. -/
def requestPositions (c : OrderEntryClient) : List UInt32 → OrderEntryClient × List ClientRequest
  | [] => (c, [])
  | symbolId :: symbolIds =>
    let first := c.requestPosition symbolId
    let others := first.1.requestPositions symbolIds
    (others.1, first.2 ++ others.2)

/-- The ids `send_order_request` gives an order. -/
def identify (c : OrderEntryClient) (now : Nat) (order : OrderRequest) : OrderRequest :=
  { order with
    clientId := c.clientId
    orderId := if order.action = .new then c.nextId else order.orderId
    execId := c.nextId.toNat
    timestamp := now }

/-- `send_order_request`. -/
def sendOrderRequest (c : OrderEntryClient) (now : Nat) (order : OrderRequest) : Outcome := do
  if (order.action = .new ∧ order.type ≠ .market) ∨ order.action = .modify then
    (validatePrice c.symbolsInfo order.symbolId order.p).mapError ("Invalid order price: " ++ ·)
  pure ({ c with nextId := c.nextId + 1 }.sendNext (.order (c.identify now order)))

/-- `OrderRequestT req;`, with its action. -/
def blank (action : OrderAction) (symbolId : UInt32) (side : Side) : OrderRequest where
  action := action
  execId := 0
  orderId := 0
  clientId := 0
  symbolId := symbolId
  side := side
  type := .limit
  p := 0
  q := 0
  visibleQty := 0
  timestamp := 0

/-- `new_order`. -/
def newOrder (c : OrderEntryClient) (now : Nat) (symbolId : UInt32) (side : Side) (type : OrderType) (p : Int)
    (q visibleQty : Nat) : Outcome :=
  c.sendOrderRequest now
    { blank .new symbolId side with
      type := type
      p := p
      q := q
      visibleQty := if visibleQty = 0 then q else visibleQty }

/-- `replace_order`. -/
def replaceOrder (c : OrderEntryClient) (now : Nat) (orderId : UInt32) (p : Int) (q : Nat) (symbolId : UInt32)
    (side : Side) : Outcome :=
  c.sendOrderRequest now { blank .modify symbolId side with orderId := orderId, p := p, q := q }

/-- `cancel_order`. -/
def cancelOrder (c : OrderEntryClient) (now : Nat) (orderId symbolId : UInt32) (side : Side) : Outcome :=
  c.sendOrderRequest now { blank .cancel symbolId side with orderId := orderId }

/-- The public members that send, and `stop`. -/
inductive Call
  | newLimitOrder (symbolId : UInt32) (side : Side) (p : Int) (q visibleQty : Nat)
  | newMarketOrder (symbolId : UInt32) (side : Side) (q : Nat)
  | newOrder (symbolId : UInt32) (side : Side) (type : OrderType) (p : Int) (q visibleQty : Nat)
  | replaceOrder (orderId : UInt32) (p : Int) (q : Nat) (symbolId : UInt32) (side : Side)
  | cancelOrder (orderId symbolId : UInt32) (side : Side)
  | sendOrderRequest (order : OrderRequest)
  | requestPosition (symbolId : UInt32)
  | requestOpenOrders
  | stop

/-- A call at a time of the clock. -/
def invoke (c : OrderEntryClient) (now : Nat) : Call → Outcome
  | .newLimitOrder symbolId side p q visibleQty => c.newOrder now symbolId side .limit p q visibleQty
  | .newMarketOrder symbolId side q => c.newOrder now symbolId side .market 0 q q
  | .newOrder symbolId side type p q visibleQty => c.newOrder now symbolId side type p q visibleQty
  | .replaceOrder orderId p q symbolId side => c.replaceOrder now orderId p q symbolId side
  | .cancelOrder orderId symbolId side => c.cancelOrder now orderId symbolId side
  | .sendOrderRequest order => c.sendOrderRequest now order
  | .requestPosition symbolId => pure (c.requestPosition symbolId)
  | .requestOpenOrders => pure c.requestOpenOrders
  | .stop => pure (c.stop, [])

/-- The records whose price `on_order_response` tests. -/
def Priced (r : OrderResponse) : Prop :=
  (r.execType = .new ∨ r.execType = .fill ∨ r.execType = .partialFill ∨ r.execType = .replaced ∨
    r.execType = .orderStatus) ∧ r.rejectCode = .none

instance (r : OrderResponse) : Decidable (Priced r) := by unfold Priced; infer_instance

/-- `on_order_response`. -/
def onOrderResponse (c : OrderEntryClient) (r : OrderResponse) : Except String OrderEntryClient := do
  if Priced r then
    (validatePrice c.symbolsInfo r.symbolId r.p).mapError ("OrderResponse has invalid price: " ++ ·)
  pure { c with account := c.account.handleOrderResponse r }

/-- `on_position_response`. -/
def onPositionResponse (c : OrderEntryClient) (m : PositionResponse) : OrderEntryClient :=
  { c with account := c.account.handlePositionResponse m }

/-- The answer to `AdminResponseType_Ready`. -/
def onReady (c : OrderEntryClient) : OrderEntryClient × List ClientRequest :=
  let orders := c.requestOpenOrders
  let positions := orders.1.requestPositions c.symbolIds
  ({ positions.1 with ready := true }, orders.2 ++ positions.2)

/-- The answer to `AdminResponseType_Reject`, with the number the message bears. -/
def onReject (c : OrderEntryClient) (msgSeqNum expectedMsgSeqNum : Nat) (code : RejectCode) :
    OrderEntryClient × List ClientRequest :=
  if code = .invalidSequenceNumber then
    ({ c with oSeqNum := expectedMsgSeqNum }, [⟨.admin .logOn c.clientId msgSeqNum, expectedMsgSeqNum⟩])
  else if code = .loginAtOtherSession then (c.stop, [])
  else (c, [])

/-- The handler `start` gives to `run_async`. -/
def onMessage (c : OrderEntryClient) (m : ClientResponse) : Outcome :=
  match m.data with
  | .admin type _ expectedMsgSeqNum code =>
    let c := { c with iSeqNum := m.msgSeqNum }
    match type with
    | .ready => .ok c.onReady
    | .reject => .ok (c.onReject m.msgSeqNum expectedMsgSeqNum code)
  | data =>
    if m.msgSeqNum ≠ c.iSeqNum + 1 then .error sequenceNumberMismatch
    else
      let c := { c with iSeqNum := m.msgSeqNum }
      match data with
      | .order r => (c.onOrderResponse r).map fun c => (c, [])
      | .position clientId symbolId position => .ok (c.onPositionResponse ⟨clientId, symbolId, position⟩, [])
      | _ => .ok (c, [])

end OrderEntryClient

/-! ## The numbers of what is sent -/

namespace Gateway

/-- A request that is neither a logon nor a logout. -/
def ClientRequest.Plain (r : ClientRequest) : Prop :=
  ∀ action clientId ackSeqNum, r.data ≠ .admin action clientId ackSeqNum

/-- The next request. -/
def NextRequest (n : Nat) (r : ClientRequest) (n' : Nat) : Prop :=
  r.msgSeqNum = n + 1 ∧ r.Plain ∧ n' = n + 1

end Gateway

namespace OrderEntryClient

open Lib

/-- A call has sent requests, and taken a number for each. -/
structure Sends (c : OrderEntryClient) (out : List ClientRequest) (c' : OrderEntryClient) : Prop where
  numbers : Carries NextRequest c.oSeqNum out c'.oSeqNum
  clientId : c'.clientId = c.clientId
  iSeqNum : c'.iSeqNum = c.iSeqNum
  ready : c.ready = true → c'.ready = true

variable {c c' c'' : OrderEntryClient} {out out' : List ClientRequest}

theorem Sends.nothing (hout : c'.oSeqNum = c.oSeqNum) (hid : c'.clientId = c.clientId)
    (hin : c'.iSeqNum = c.iSeqNum) (hready : c.ready = true → c'.ready = true) : c.Sends [] c' :=
  ⟨hout, hid, hin, hready⟩

theorem Sends.trans (h : c.Sends out c') (h' : c'.Sends out' c'') : c.Sends (out ++ out') c'' :=
  ⟨h.numbers.append h'.numbers, h'.clientId.trans h.clientId, h'.iSeqNum.trans h.iSeqNum,
    fun hready => h'.ready (h.ready hready)⟩

theorem sends_sendNext {data : ClientRequestData} (hplain : ClientRequest.Plain ⟨data, c.oSeqNum + 1⟩) :
    c.Sends (c.sendNext data).2 (c.sendNext data).1 :=
  ⟨.single ⟨rfl, hplain, rfl⟩, rfl, rfl, id⟩

theorem sends_requestPosition (symbolId : UInt32) :
    c.Sends (c.requestPosition symbolId).2 (c.requestPosition symbolId).1 := sends_sendNext (fun _ _ _ => nofun)

theorem sends_requestOpenOrders : c.Sends c.requestOpenOrders.2 c.requestOpenOrders.1 :=
  sends_sendNext (fun _ _ _ => nofun)

theorem sends_requestPositions (symbolIds : List UInt32) :
    c.Sends (c.requestPositions symbolIds).2 (c.requestPositions symbolIds).1 := by
  induction symbolIds generalizing c with
  | nil => exact .nothing rfl rfl rfl id
  | cons symbolId symbolIds ih => exact (sends_requestPosition symbolId).trans ih

/-- Ready is answered with the two requests for the state. -/
theorem sends_onReady : c.Sends c.onReady.2 c.onReady.1 ∧ c.onReady.1.ready = true := by
  have hready : (c.requestOpenOrders.1.requestPositions c.symbolIds).1.Sends [] c.onReady.1 :=
    .nothing rfl rfl rfl fun _ => rfl
  have hall := (sends_requestOpenOrders.trans (sends_requestPositions c.symbolIds)).trans hready
  rw [List.append_nil] at hall
  exact ⟨hall, rfl⟩

/-- An order passes the client's own checks and is sent with the next number. -/
theorem sends_sendOrderRequest {now : Nat} {order : OrderRequest}
    (h : c.sendOrderRequest now order = .ok (c', out)) : c.Sends out c' := by
  have hsent : (c', out) = { c with nextId := c.nextId + 1 }.sendNext (.order (c.identify now order)) := by
    unfold sendOrderRequest at h
    split at h
    · obtain ⟨_, -, hpure⟩ := Lib.bind_ok h
      exact (Except.ok.inj hpure).symm
    · exact (Except.ok.inj h).symm
  have hids : c.Sends [] { c with nextId := c.nextId + 1 } := .nothing rfl rfl rfl id
  have hplain : ClientRequest.Plain
      ⟨.order (c.identify now order), ({ c with nextId := c.nextId + 1 } : OrderEntryClient).oSeqNum + 1⟩ :=
    fun _ _ _ => nofun
  have hnext := hids.trans (sends_sendNext hplain)
  rw [← hsent] at hnext
  exact hnext

/-- A call takes the next numbers. -/
theorem sends_invoke {now : Nat} {k : Call} (h : c.invoke now k = .ok (c', out)) : c.Sends out c' := by
  cases k with
  | requestPosition symbolId =>
    obtain ⟨rfl, rfl⟩ := Prod.mk.inj (Except.ok.inj h)
    exact sends_requestPosition symbolId
  | requestOpenOrders =>
    obtain ⟨rfl, rfl⟩ := Prod.mk.inj (Except.ok.inj h)
    exact sends_requestOpenOrders
  | stop =>
    obtain ⟨rfl, rfl⟩ := Prod.mk.inj (Except.ok.inj h)
    exact .nothing rfl rfl rfl id
  | newLimitOrder _ _ _ _ _ | newMarketOrder _ _ _ | newOrder _ _ _ _ _ _ | replaceOrder _ _ _ _ _
  | cancelOrder _ _ _ | sendOrderRequest _ =>
    unfold invoke at h
    exact sends_sendOrderRequest h

/-- A record changes the account, if its price is accepted. -/
theorem onOrderResponse_cases (c : OrderEntryClient) (r : OrderResponse) :
    c.onOrderResponse r = .ok { c with account := c.account.handleOrderResponse r } ∨
      ∃ err, c.onOrderResponse r = .error ("OrderResponse has invalid price: " ++ err) := by
  unfold onOrderResponse
  split
  · cases validatePrice c.symbolsInfo r.symbolId r.p with
    | error err => exact Or.inr ⟨err, rfl⟩
    | ok _ => exact Or.inl rfl
  · exact Or.inl rfl

/-- The two exceptions of the handler differ. -/
theorem invalidPrice_ne_mismatch (err : String) :
    "OrderResponse has invalid price: " ++ err ≠ sequenceNumberMismatch := by
  intro h
  have hhead := congrArg (fun s : String => s.toList.head?) h
  have hprice : "OrderResponse has invalid price: ".toList.head? = some 'O' := by decide
  have hmismatch : sequenceNumberMismatch.toList.head? = some 'S' := by decide
  rw [String.toList_append, List.head?_append, hprice, hmismatch, Option.some_or] at hhead
  exact absurd hhead (by decide)

end OrderEntryClient

end Exchange
