import StockExchange.ClientReplica

/-!
# The text of a book

`to_string` goes round the rings of the levels and of their orders. The text of the engine's book
is that of its lists, and its check finds the sides that are not sorted. In the client's book the
loop over the bids begins at `ask_` and waits for `bid_`, which it never meets.
-/

namespace StockExchange

open Ring BookView Transitions

/-! ## Loops round a ring -/

/-- A loop that visits a node, goes on to the next one and ends before a node that `stop` names. -/
def goRound {σ : Type} (next : Nat → Option Nat) (stop : Option Nat → Bool)
    (visit : σ → Nat → Except Fault σ) : Nat → Nat → σ → Except Fault σ
  | 0, _, _ => .error .outOfFuel
  | fuel + 1, a, s =>
    visit s a >>= fun s =>
      if stop (next a) then .ok s
      else deref (next a) >>= fun b => goRound next stop visit fuel b s

/-- There was no fault, but the fuel may have been too little. -/
def Faultless {α : Type} (x : Except Fault α) : Prop := ∀ e, x = .error e → e = .outOfFuel

section Loops
variable {α β σ : Type} {next prev : Nat → Option Nat} {stop : Option Nat → Bool}
  {visit : σ → Nat → Except Fault σ} {fuel first p : Nat} {ps xs : List Nat}

theorem faultless_ok (a : α) : Faultless (.ok a) := fun _ he => by cases he

theorem Faultless.bind {x : Except Fault α} {f : α → Except Fault β} (hx : Faultless x)
    (hf : ∀ a, Faultless (f a)) : Faultless (x >>= f) := by
  cases x with
  | ok a => exact hf a
  | error e =>
    intro e' he
    cases he
    exact hx e rfl

theorem goRound_chain (hfirst : first ∉ ps)
    (h : (p :: ps ++ [first]).IsChain fun x y => next x = some y)
    (hstop : ∀ q ∈ first :: ps, stop (some q) = decide (q = first)) (hfuel : ps.length < fuel)
    (s : σ) : goRound next stop visit fuel p s = (p :: ps).foldlM visit s := by
  induction ps generalizing p fuel s with
  | nil =>
    obtain ⟨fuel, rfl⟩ : ∃ n, fuel = n + 1 := ⟨fuel - 1, by omega⟩
    have hnext : next p = some first := by simpa using h
    have hends : stop (next p) = true := by
      rw [hnext, hstop first List.mem_cons_self]
      exact decide_eq_true rfl
    simp only [goRound, hends, if_true]
    rfl
  | cons q ps ih =>
    obtain ⟨fuel, rfl⟩ : ∃ n, fuel = n + 1 := ⟨fuel - 1, by omega⟩
    obtain ⟨hnext, hrest⟩ := List.isChain_cons_cons.mp h
    obtain ⟨hne, hfirst⟩ := not_or.mp (List.mem_cons.not.mp hfirst)
    have hgoes : stop (next p) = false := by
      rw [hnext, hstop q (List.mem_cons_of_mem _ List.mem_cons_self)]
      exact decide_eq_false fun heq => hne heq.symm
    have hrun := fun s => ih hfirst hrest (fun r hr => hstop r (by
      rcases List.mem_cons.mp hr with rfl | hr
      · exact List.mem_cons_self
      · exact List.mem_cons_of_mem _ (List.mem_cons_of_mem _ hr))) (by simpa using hfuel) s
    rw [hnext] at hgoes
    simp only [goRound, hnext, hgoes, deref_some, ok_bind, hrun, Bool.false_eq_true, if_false]
    rfl

/-- Once around a ring. -/
theorem goRound_ring (h : IsRing next prev (first :: xs))
    (hstop : ∀ q ∈ first :: xs, stop (some q) = decide (q = first)) (hfuel : xs.length < fuel)
    (s : σ) : goRound next stop visit fuel first s = (first :: xs).foldlM visit s :=
  goRound_chain (List.nodup_cons.mp h.nodup).1 h.cycle hstop hfuel s

theorem goRound_faultless (hnext : ∀ a ∈ xs, ∃ b ∈ xs, next a = some b)
    (hvisit : ∀ a ∈ xs, ∀ s, Faultless (visit s a)) (fuel : Nat) :
    ∀ a ∈ xs, ∀ s, Faultless (goRound next stop visit fuel a s) := by
  induction fuel with
  | zero =>
    intro a _ s e he
    cases he
    rfl
  | succ fuel ih =>
    intro a ha s
    obtain ⟨b, hb, hab⟩ := hnext a ha
    refine (hvisit a ha s).bind fun s' => ?_
    split
    · exact faultless_ok s'
    · rw [hab]
      exact ih b hb s'

/-- A loop that never meets its end does not return. -/
theorem goRound_endless (hnext : ∀ a ∈ xs, ∃ b ∈ xs, next a = some b)
    (hstop : ∀ b ∈ xs, stop (some b) = false) (hvisit : ∀ a ∈ xs, ∀ s, Faultless (visit s a))
    (fuel : Nat) : ∀ a ∈ xs, ∀ s, goRound next stop visit fuel a s = .error .outOfFuel := by
  induction fuel with
  | zero => exact fun _ _ _ => rfl
  | succ fuel ih =>
    intro a ha s
    obtain ⟨b, hb, hab⟩ := hnext a ha
    rw [goRound]
    cases hv : visit s a with
    | error e => rw [hvisit a ha s e hv, error_bind]
    | ok s' =>
      rw [ok_bind, hab, hstop b hb]
      exact ih b hb s'

theorem foldlM_ok {visit : σ → α → Except Fault σ} {f : σ → α → σ} {xs : List α}
    (h : ∀ a ∈ xs, ∀ s, visit s a = .ok (f s a)) (s : σ) :
    xs.foldlM visit s = .ok (xs.foldl f s) := by
  induction xs generalizing s with
  | nil => rfl
  | cons a xs ih =>
    rw [List.foldlM_cons, h a List.mem_cons_self, ok_bind]
    exact ih (fun b hb => h b (List.mem_cons_of_mem a hb)) _

/-- A loop that does nothing that can fail. -/
theorem goRound_pure (f : σ → Nat → σ) (h : IsRing next prev (first :: xs))
    (hfuel : xs.length < fuel) (s : σ) :
    goRound next (fun p => decide (p = some first)) (fun s a => .ok (f s a)) fuel first s =
      .ok ((first :: xs).foldl f s) := by
  rw [goRound_ring h (by simp) hfuel]
  exact foldlM_ok (fun _ _ _ => rfl) s

end Loops

/-! ## The book of the engine -/

/-- `{:<n}`: blanks on the right, up to the width. -/
def padRight (n : Nat) (s : String) : String :=
  s ++ String.ofList (List.replicate (n - s.length) ' ')

/-- The line of a level. -/
def levelLine (price prev next : Price) (totalQty : Quantity) (numOrders : Nat) : String :=
  " <px:" ++ padRight 5 (toString price.toInt) ++ " prev:" ++ padRight 5 (toString prev.toInt) ++
    " next:" ++ padRight 5 (toString next.toInt) ++ "> " ++ padRight 5 (toString price.toInt) ++
    " @ " ++ padRight 6 (toString totalQty.toNat) ++ "(" ++ padRight 3 (toString numOrders) ++ ")\n"

def orderEntry (id : OrderId) (qty : Quantity) (prev next : OrderId) : String :=
  "[oid:" ++ toString id.toNat ++ " q:" ++ toString qty.toNat ++ " p:" ++ toString prev.toNat ++
    " n:" ++ toString next.toNat ++ "] "

/-- The test of the check, against the price printed before. -/
def unsorted (side : Side) (last price : Price) : Bool :=
  side = .sell ∧ price ≤ last ∨ side = .buy ∧ last ≤ price

def unsortedError (last price : Price) : String :=
  "ERROR: Bids/Asks not sorted by price. Last: " ++ toString last.toInt ++ " Current: " ++
    toString price.toInt ++ "\n"

def asksHeader (instrumentId : InstrumentId) : String :=
  "OrderBook for Instrument ID: " ++ toString instrumentId.toNat ++ "\nASKS:\n"

def bidsHeader : String := "\n                          X\n\nBIDS:\n"

namespace OrderBook

/-- The price of a level that is linked, if there is one. -/
def linkedPrice (s : OrderBook) (l : Option LevelPtr) : Price :=
  l.elim invalidPrice fun l => (s.level l).price

def linkedId (s : OrderBook) (p : Option OrderPtr) : OrderId :=
  p.elim invalidOrderId fun p => (s.order p).marketOrderId

/-- `print_price_level`: the text so far and the last price. -/
def printPriceLevel (fuel : Nat) (s : OrderBook) (detailed checkValidity : Bool) (side : Side)
    (ss : String × Price) (l : LevelPtr) : Except Fault (String × Price) := do
  let level := s.level l
  let first ← deref level.firstOrder
  let total ← goRound s.nextOrder (fun p => p = level.firstOrder)
    (fun t p => .ok (t.1 + (s.order p).qty, t.2 + 1)) fuel first ((0 : Quantity), 0)
  let text := ss.1 ++ levelLine level.price (s.linkedPrice level.prevEntry)
    (s.linkedPrice level.nextEntry) total.1 total.2
  let text ← (if detailed then
      goRound s.nextOrder (fun p => p = level.firstOrder)
        (fun text p => .ok (text ++ orderEntry (s.order p).marketOrderId (s.order p).qty
          (s.linkedId (s.prevOrder p)) (s.linkedId (s.nextOrder p)))) fuel first text >>=
        fun text => .ok (text ++ "\n")
    else .ok text)
  if checkValidity then
    .ok (if unsorted side ss.2 level.price then text ++ unsortedError ss.2 level.price else text,
      level.price)
  else .ok (text, ss.2)

def printSide (fuel : Nat) (s : OrderBook) (detailed validityCheck : Bool) (side : Side)
    (last : Price) (text : String) : Except Fault String :=
  match s.best side with
  | none => .ok text
  | some best =>
    goRound s.nextEntry (fun l => l = none ∨ l = some best)
      (s.printPriceLevel fuel detailed validityCheck side) fuel best (text, last) >>= fun ss =>
        .ok ss.1

def toString (fuel : Nat) (s : OrderBook) (detailed validityCheck : Bool) :
    Except Fault String := do
  let text ← s.printSide fuel detailed validityCheck .sell Int64.minValue
    (asksHeader s.instrumentId)
  s.printSide fuel detailed validityCheck .buy Int64.maxValue (text ++ bidsHeader)

end OrderBook

/-- A level between the prices of its neighbours. -/
def PublicLevel.text (detailed : Bool) (prev next : Price) (x : PublicLevel) : String :=
  levelLine x.price prev next (x.orders.map (·.qty)).sum x.orders.length ++
    if detailed then
      (around x.orders).foldl (fun text t => text ++ orderEntry t.2.1.marketOrderId t.2.1.qty
        t.1.marketOrderId t.2.2.marketOrderId) "" ++ "\n"
    else ""

/-- Texts of levels, with an error behind each whose price does not follow the last one. -/
def checked (validityCheck : Bool) (side : Side) : Price → List (String × Price) → String
  | _, [] => ""
  | last, (text, price) :: rest =>
    text ++ (if validityCheck ∧ unsorted side last price then unsortedError last price else "") ++
      checked validityCheck side price rest

/-- One step of the check: the text and the last price, and then a text and its price. -/
def printLine (validityCheck : Bool) (side : Side) (ss : String × Price) (text : String)
    (price : Price) : String × Price :=
  if validityCheck then
    (if unsorted side ss.2 price then ss.1 ++ text ++ unsortedError ss.2 price else ss.1 ++ text,
      price)
  else (ss.1 ++ text, ss.2)

namespace PublicBook

def lines (b : PublicBook) (detailed : Bool) (side : Side) : List (String × Price) :=
  ((b.own side).zip (around ((b.own side).map (·.price)))).map fun t =>
    (t.1.text detailed t.2.1 t.2.2.2, t.1.price)

/-- What `order_book::to_string` is to say of a book. -/
def text (b : PublicBook) (instrumentId : InstrumentId) (detailed validityCheck : Bool) : String :=
  asksHeader instrumentId ++
    checked validityCheck .sell Int64.minValue (b.lines detailed .sell) ++ bidsHeader ++
    checked validityCheck .buy Int64.maxValue (b.lines detailed .buy)

/-- From the best level on prices get worse; the two limits of the type are no prices. -/
def Sorted (b : PublicBook) : Prop :=
  (Int64.minValue :: b.asks.map (·.price)).IsChain (· < ·) ∧
    (Int64.maxValue :: b.bids.map (·.price)).IsChain (· > ·)

end PublicBook

section Check
variable {side : Side} {last price : Price} {xs : List (String × Price)}

theorem length_line (s : String) : 0 < (s ++ "\n").length := by
  have hend : "\n".length = 1 := rfl
  rw [String.length_append, hend]
  exact Nat.succ_pos _

theorem length_unsortedError (last price : Price) : 0 < (unsortedError last price).length :=
  length_line _

/-- The check makes no text shorter. -/
theorem length_checked (side : Side) (last last' : Price) (xs : List (String × Price)) :
    (checked false side last' xs).length ≤ (checked true side last xs).length := by
  induction xs generalizing last last' with
  | nil => exact Nat.le_refl _
  | cons x xs ih =>
    have hrest := ih x.2 x.2
    simp only [checked, String.length_append, Bool.false_eq_true, false_and, if_false]
    have hempty : "".length = 0 := rfl
    omega

theorem length_checked_iff :
    (checked true side last xs).length = (checked false side last xs).length ↔
    (last :: xs.map (·.2)).IsChain fun x y => unsorted side x y = false := by
  induction xs generalizing last with
  | nil => simp [checked]
  | cons x xs ih =>
    have hrest := length_checked side x.2 x.2 xs
    have hpos := length_unsortedError last x.2
    have hempty : "".length = 0 := rfl
    rw [List.map_cons, List.isChain_cons_cons, ← ih]
    cases hunsorted : unsorted side last x.2 with
    | false =>
      simp only [checked, hunsorted, String.length_append, Bool.false_eq_true, and_false, if_false,
        true_and]
      omega
    | true =>
      refine iff_of_false (fun heq => ?_) fun h => absurd h.1 (by simp)
      simp only [checked, hunsorted, String.length_append, Bool.false_eq_true, false_and, and_self,
        if_true, if_false] at heq
      omega

theorem unsorted_sell (last price : Price) : unsorted .sell last price = false ↔ last < price := by
  have hside : ¬ Side.sell = .buy := by decide
  simp [unsorted, hside, Int64.not_le]

theorem unsorted_buy (last price : Price) : unsorted .buy last price = false ↔ last > price := by
  have hside : ¬ Side.buy = .sell := by decide
  simp [unsorted, hside, Int64.not_le]

/-- The check finds nothing in a sorted book. -/
theorem PublicBook.sorted_iff (b : PublicBook) : b.Sorted ↔
    (Int64.minValue :: (b.own .sell).map (·.price)).IsChain
      (fun x y => unsorted .sell x y = false) ∧
    (Int64.maxValue :: (b.own .buy).map (·.price)).IsChain
      fun x y => unsorted .buy x y = false := by
  simp only [unsorted_sell, unsorted_buy]
  rfl

theorem checked_of_sorted
    (h : (last :: xs.map (·.2)).IsChain fun x y => unsorted side x y = false) :
    checked true side last xs = checked false side last xs := by
  induction xs generalizing last with
  | nil => rfl
  | cons x xs ih =>
    obtain ⟨hnext, hrest⟩ := List.isChain_cons_cons.mp h
    rw [checked, checked, hnext, ih hrest]
    rfl

end Check

section Engine
variable {s : OrderBook} {v : BookView} {l : LevelView} {fuel : Nat}

theorem orders_length_le (hv : v.Valid) (hl : l ∈ v.levels) : l.orders.length ≤ maxNumOrders := by
  have hlen := hv.orderHandles.length_eq
  simp only [List.length_append, List.length_map, List.length_range] at hlen
  have hsub : l.orders.Sublist v.orders :=
    List.sublist_flatten_of_mem (List.mem_map_of_mem (f := LevelView.orders) hl)
  have hle := hsub.length_le
  omega

theorem levels_length_le (hv : v.Valid) (side : Side) : (v.own side).length ≤ maxPriceLevels := by
  have hlen := hv.levelHandles.length_eq
  have hle : (v.own side).length ≤ v.levels.length := by
    by_cases hs : side = .buy <;> simp [own, levels, hs]
  simp only [List.length_append, List.length_map, List.length_range] at hlen
  omega

/-- The text of a level in the book. -/
def OrderBook.lineOf (s : OrderBook) (detailed : Bool) (l : LevelView) : String :=
  l.asPublic.text detailed (s.linkedPrice (s.prevEntry l.handle))
    (s.linkedPrice (s.nextEntry l.handle))

theorem foldl_total (os : List OrderView)
    (hfields : ∀ o ∈ os, (s.order o.handle).toOrderFields = o.toOrderFields) (qty : Quantity)
    (n : Nat) : (os.map (·.handle)).foldl (fun t p => (t.1 + (s.order p).qty, t.2 + 1)) (qty, n) =
      (qty + (os.map (·.qty)).sum, n + os.length) := by
  induction os generalizing qty n with
  | nil => simp
  | cons o os ih =>
    have hqty : (s.order o.handle).qty = o.qty :=
      congrArg OrderFields.qty (hfields o List.mem_cons_self)
    rw [List.map_cons, List.foldl_cons, hqty,
      ih (fun o ho => hfields o (List.mem_cons_of_mem _ ho)), List.map_cons, List.sum_cons,
      UInt32.add_assoc, List.length_cons, Nat.add_assoc, Nat.add_comm 1]

theorem foldl_text {α : Type} (f : α → String) (xs : List α) (text : String) :
    xs.foldl (fun text x => text ++ f x) text =
      text ++ xs.foldl (fun text x => text ++ f x) "" := by
  induction xs generalizing text with
  | nil => exact (String.append_empty).symm
  | cons x xs ih =>
    rw [List.foldl_cons, ih, List.foldl_cons, ih ("" ++ f x), String.empty_append,
      String.append_assoc]

theorem linkedId_eq (p : Option OrderPtr) :
    (p.elim MarketOrder.default.toMarketOrderFields s.heap.fields).marketOrderId =
      s.linkedId p := by
  cases p <;> rfl

/-- The entries of the orders of a level, each with the ids of its neighbours. -/
theorem entries_eq (hrep : LevelRep s l) :
    (l.orders.map (·.handle)).map (fun p => orderEntry (s.order p).marketOrderId (s.order p).qty
      (s.linkedId (s.prevOrder p)) (s.linkedId (s.nextOrder p))) =
    (around l.asPublic.orders).map fun t => orderEntry t.2.1.marketOrderId t.2.1.qty
      t.1.marketOrderId t.2.2.marketOrderId := by
  have hfields : ∀ o ∈ l.orders, s.heap.fields o.handle = o.asMarket := by
    intro o ho
    simp only [OrderBook.heap, hrep.fields o ho]
    rfl
  have hlinks := hrep.ring.around_eq MarketOrder.default.toMarketOrderFields hfields
  rw [LevelView.asPublic, hlinks, List.map_map, List.map_map]
  refine List.map_congr_left fun o ho => ?_
  simp only [Function.comp_apply, linkedId_eq, ← hfields o ho]
  rfl

/-- What is printed of a level. -/
theorem printPriceLevel_eq (hr : Represents s v) (hv : v.Valid) (hl : l ∈ v.levels)
    (hfuel : maxNumOrders < fuel) (detailed checkValidity : Bool) (side : Side)
    (ss : String × Price) :
    s.printPriceLevel fuel detailed checkValidity side ss l.handle =
      .ok (printLine checkValidity side ss (s.lineOf detailed l) l.price) := by
  have hrep := hr.level l hl
  have hlen := orders_length_le hv hl
  obtain ⟨o, os, horders⟩ := List.exists_cons_of_ne_nil (hv.nonempty l hl)
  have hfirst : (s.level l.handle).firstOrder = some o.handle := by
    rw [hrep.firstOrder, horders]
    rfl
  have hring := hrep.ring
  have hlong : (os.map (·.handle)).length < fuel := by
    rw [horders, List.length_cons] at hlen
    rw [List.length_map]
    omega
  rw [horders, List.map_cons] at hring
  have htotal := goRound_pure (fun (t : Quantity × Nat) p => (t.1 + (s.order p).qty, t.2 + 1)) hring
    hlong (0, 0)
  have hentries := goRound_pure (fun text p => text ++ orderEntry (s.order p).marketOrderId
    (s.order p).qty (s.linkedId (s.prevOrder p)) (s.linkedId (s.nextOrder p))) hring hlong
  rw [← List.map_cons, ← horders] at htotal hentries
  rw [foldl_total _ hrep.fields, UInt32.zero_add, Nat.zero_add] at htotal
  have hqtys : (l.asPublic.orders.map (·.qty)) = l.orders.map (·.qty) := by
    rw [LevelView.asPublic, List.map_map]
    rfl
  have hcount : l.asPublic.orders.length = l.orders.length := List.length_map ..
  have hprice : l.asPublic.price = l.price := rfl
  simp only [OrderBook.printPriceLevel, hfirst, deref_some, ok_bind, htotal, hrep.price]
  simp only [printLine, OrderBook.lineOf, PublicLevel.text, hqtys, hcount, hprice]
  cases detailed with
  | false =>
    simp only [Bool.false_eq_true, if_false, String.append_empty, ok_bind]
    cases checkValidity <;> rfl
  | true =>
    have hprinted := fun text => congrArg (List.foldl (· ++ ·) text) (entries_eq hrep)
    simp only [List.foldl_map] at hprinted
    simp only [if_true, hentries, List.foldl_map, hprinted, ok_bind]
    rw [foldl_text]
    simp only [String.append_assoc]
    cases checkValidity <;> rfl

/-- A loop that prints levels. -/
theorem foldl_checked (T : LevelView → String) (side : Side) (ls : List LevelView) :
    ∀ (checkValidity : Bool) (text : String) (last last' : Price),
      (checkValidity = true → last' = last) →
      (ls.foldl (fun ss l => printLine checkValidity side ss (T l) l.price) (text, last)).1 =
        text ++ checked checkValidity side last' (ls.map fun l => (T l, l.price)) := by
  induction ls with
  | nil => exact fun _ _ _ _ _ => String.append_empty.symm
  | cons l ls ih =>
    intro checkValidity text last last' hlast
    rw [List.map_cons, List.foldl_cons, checked]
    cases checkValidity with
    | false =>
      rw [printLine, if_neg Bool.false_ne_true, if_neg fun h => Bool.false_ne_true h.1,
        ih false _ last l.price (by simp), String.append_empty, String.append_assoc]
    | true =>
      rw [hlast rfl, printLine, if_pos rfl, ih true _ l.price l.price fun _ => rfl]
      by_cases hunsorted : unsorted side last l.price = true
      · rw [if_pos hunsorted, if_pos ⟨rfl, hunsorted⟩]
        simp only [String.append_assoc]
      · rw [if_neg hunsorted, if_neg fun h => hunsorted h.2]
        simp only [String.append_assoc, String.append_empty]

theorem lines_eq (hr : Represents s v) (detailed : Bool) (side : Side) :
    v.asPublic.lines detailed side = (v.own side).map fun l => (s.lineOf detailed l, l.price) := by
  have hprice : ∀ l ∈ v.own side, (s.level l.handle).price = l.price :=
    fun l hl => (hr.level l (v.own_subset side hl)).price
  have hlinks := (hr.sides side).ring.around_eq (g := fun l => (s.level l).price) invalidPrice
    hprice
  rw [PublicBook.lines, PublicBook.own_asPublic, List.map_map]
  change (((v.own side).map LevelView.asPublic).zip
    (around ((v.own side).map (·.price)))).map _ = _
  rw [hlinks, List.zip_map', List.map_map]
  rfl

theorem printSide_eq (hr : Represents s v) (hv : v.Valid) (hfuel : maxNumOrders < fuel)
    (detailed validityCheck : Bool) (side : Side) (last : Price) (text : String) :
    s.printSide fuel detailed validityCheck side last text =
      .ok (text ++ checked validityCheck side last (v.asPublic.lines detailed side)) := by
  rw [lines_eq hr, OrderBook.printSide, (hr.sides side).head]
  cases hown : v.own side with
  | nil => exact congrArg Except.ok String.append_empty.symm
  | cons l ls =>
    have hring := (hr.sides side).ring
    have hlen := levels_length_le hv side
    rw [hown, List.map_cons] at hring
    rw [hown, List.length_cons] at hlen
    have hlong : (ls.map (·.handle)).length < fuel := by
      rw [List.length_map]
      exact Nat.lt_trans (Nat.lt_of_lt_of_le (Nat.lt_succ_self _) hlen)
        (Nat.lt_trans (by decide) hfuel)
    have hstop : ∀ q ∈ l.handle :: ls.map (·.handle),
        decide (some q = none ∨ some q = some l.handle) = decide (q = l.handle) := by simp
    simp only [List.map_cons, List.head?_cons]
    rw [goRound_ring hring hstop hlong, ← List.map_cons, ← hown, List.foldlM_map,
      foldlM_ok fun l hl => printPriceLevel_eq hr hv (v.own_subset side hl) hfuel detailed
        validityCheck side, ok_bind]
    have hprinted := foldl_checked (s.lineOf detailed) side (v.own side) validityCheck text last
      last fun _ => rfl
    rw [hprinted, hown, List.map_cons]

/-- In every state of a run that keeps the sides apart the text is that of the public book, and
the check reports an error exactly when a side is not sorted. -/
theorem toString_prints {i : InstrumentId} {rs : List OrderBook.BookRequest}
    (hfuel : maxNumOrders < fuel)
    (h : Reached (OrderBook.call fuel) (OrderBook.Books fuel OrderBook.SlotOfSide) (.create i) rs
      s) :
    ∃ b, s.heap.Shows b ∧ ∀ enough, maxNumOrders < enough →
      (∀ detailed validityCheck, s.toString enough detailed validityCheck =
        .ok (b.text s.instrumentId detailed validityCheck)) ∧
      ∀ detailed, s.toString enough detailed true = s.toString enough detailed false ↔
        b.Sorted := by
  obtain ⟨hr, hv⟩ := represents_of_booksOfSide hfuel h
  generalize rs.foldl BookView.call (.create i) = v at hr hv
  refine ⟨v.asPublic, hr.shows, fun enough henough => ?_⟩
  have htext : ∀ detailed validityCheck, s.toString enough detailed validityCheck =
      .ok (v.asPublic.text s.instrumentId detailed validityCheck) := by
    intro detailed validityCheck
    rw [OrderBook.toString, printSide_eq hr hv henough, ok_bind, printSide_eq hr hv henough]
    rfl
  refine ⟨htext, fun detailed => ?_⟩
  have hprices (side : Side) : (v.asPublic.lines detailed side).map (·.2) =
      (v.asPublic.own side).map (·.price) := by
    rw [lines_eq hr, PublicBook.own_asPublic, List.map_map, List.map_map]
    rfl
  rw [htext, htext, PublicBook.text, PublicBook.text, PublicBook.sorted_iff, ← hprices, ← hprices,
    ← length_checked_iff, ← length_checked_iff]
  constructor
  · intro heq
    have hlen := congrArg String.length (Except.ok.inj heq)
    have hasks := length_checked .sell Int64.minValue Int64.minValue
      (v.asPublic.lines detailed .sell)
    have hbids := length_checked .buy Int64.maxValue Int64.maxValue
      (v.asPublic.lines detailed .buy)
    simp only [String.length_append] at hlen
    omega
  · rintro ⟨hasks, hbids⟩
    rw [checked_of_sorted (length_checked_iff.mp hasks),
      checked_of_sorted (length_checked_iff.mp hbids)]

/-- The ask at 13 was linked behind the one at 14, and the check finds it. -/
theorem toString_prints_sample : ∃ s b,
    Reached (OrderBook.call 3000) (OrderBook.Books 3000 OrderBook.SlotOfSide) (.create 0)
      [.add 1 1 .sell 10 8, .add 1 2 .sell 12 5, .add 2 1 .sell 14 5, .add 2 2 .sell 13 4] s ∧
    s.heap.Shows b ∧ s.toString 3000 true true = .ok (b.text s.instrumentId true true) ∧
    ¬ b.Sorted := by
  obtain ⟨s, hs, hcheck⟩ := @reached_of_any _ _ _ (OrderBook.call 3000)
    (OrderBook.Books 3000 OrderBook.SlotOfSide) (.create 0)
    [.add 1 1 .sell 10 8, .add 1 2 .sell 12 5, .add 2 1 .sell 14 5, .add 2 2 .sell 13 4] _
    (fun s => s.toString 3000 false true ≠ s.toString 3000 false false) (by decide +kernel)
  obtain ⟨b, hshows, hprints⟩ := toString_prints (by decide) hs
  obtain ⟨htext, hsorted⟩ := hprints 3000 (by decide)
  exact ⟨s, b, hs, hshows, htext true true,
    fun h => of_decide_eq_true hcheck ((hsorted false).mpr h)⟩

end Engine

/-! ## The book of the client -/

def orderIdToString (id : OrderId) : String :=
  if id = invalidOrderId then "INVALID" else toString id.toNat

def instrumentIdToString (id : InstrumentId) : String :=
  if id = invalidInstrumentId then "INVALID" else toString id.toNat

def priceToString (price : Price) : String :=
  if price = invalidPrice then "INVALID" else toString price.toInt

def quantityToString (quantity : Quantity) : String :=
  if quantity = invalidQuantity then "INVALID" else toString quantity.toNat

def priorityToString (priority : Priority) : String :=
  if priority = invalidPriority then "INVALID" else toString priority.toNat

def sideToString (side : Side) : String :=
  if side = .buy then "BUY" else if side = .sell then "SELL"
  else if side = .invalid then "INVALID" else "UNKNOWN"

/-- `market_order::to_string`. -/
def MarketOrderFields.text (o : MarketOrderFields) : String :=
  "order[market_order_id:" ++ orderIdToString o.marketOrderId ++ " side:" ++ sideToString o.side ++
    " price:" ++ priceToString o.price ++ " qty:" ++ quantityToString o.qty ++ " priority:" ++
    priorityToString o.priority ++ "]"

def clientLine (price prev next : Price) (qty : Quantity) (numOrders : Nat) : String :=
  " <px:" ++ priceToString price ++ " p:" ++ priceToString prev ++ " n:" ++ priceToString next ++
    "> " ++ priceToString price ++ " @ " ++ quantityToString qty ++ "(" ++ toString numOrders ++ ")"

def clientEntry (id : OrderId) (qty : Quantity) (prev next : OrderId) : String :=
  " [oid:" ++ orderIdToString id ++ " q:" ++ quantityToString qty ++
    " p:" ++ orderIdToString prev ++ " n:" ++ orderIdToString next ++ "] "

def clientError (last : Price) (level : String) : String :=
  "Bids/Asks not sorted by ascending/descending prices last:" ++ priceToString last ++ " itr:" ++
    level

def clientHeader (instrumentId : InstrumentId) : String :=
  "Instrument:" ++ instrumentIdToString instrumentId ++ "\n"

def sidesApart : String := "\n                          X\n\n"

def countText (label : String) (count : Nat) : String := label ++ toString count ++ " => "

namespace MarketOrderBook

def linkedPrice (m : MarketOrderBook) (l : Option LevelPtr) : Price :=
  l.elim invalidPrice fun l => (m.level l).price

def linkedId (m : MarketOrderBook) (p : Option OrderPtr) : OrderId :=
  p.elim invalidOrderId fun p => (m.order p).marketOrderId

/-- `market_price_level::to_string`. -/
def levelText (m : MarketOrderBook) (l : LevelPtr) : String :=
  let level := m.level l
  "price_level[side:" ++ sideToString level.side ++ " price:" ++ priceToString level.price ++
    " first_me_order:" ++
    level.firstOrder.elim "null" (fun p => (m.order p).toMarketOrderFields.text) ++ " prev:" ++
    priceToString (m.linkedPrice level.prevEntry) ++ " next:" ++
    priceToString (m.linkedPrice level.nextEntry) ++ "]"

/-- A round of a loop over levels: the text so far, the last price and the count. -/
def printer (fuel : Nat) (m : MarketOrderBook) (label : String) (verbose sanityCheck : Bool)
    (side : Side) (ss : String × Price × Nat) (l : LevelPtr) :
    Except Fault (String × Price × Nat) := do
  let level := m.level l
  let first ← deref level.firstOrder
  let total ← goRound (fun p => (m.order p).nextOrder) (fun p => p = level.firstOrder)
    (fun t p => .ok (t.1 + (m.order p).qty, t.2 + 1)) fuel first ((0 : Quantity), 0)
  let prev ← deref level.prevEntry
  let next ← deref level.nextEntry
  let text := ss.1 ++ countText label ss.2.2 ++
    clientLine level.price (m.level prev).price (m.level next).price total.1 total.2
  let text ← goRound (fun p => (m.order p).nextOrder) (fun p => p = level.firstOrder)
    (fun text p => .ok (if verbose then text ++ clientEntry (m.order p).marketOrderId
      (m.order p).qty (m.linkedId (m.order p).prevOrder) (m.linkedId (m.order p).nextOrder)
    else text)) fuel first text
  let text := text ++ "\n"
  if sanityCheck then
    .ok (if unsorted side ss.2.1 level.price then text ++ clientError ss.2.1 (m.levelText l)
      else text, level.price, ss.2.2 + 1)
  else .ok (text, ss.2.1, ss.2.2 + 1)

/-- A loop over levels from `start` on, until the next one is `stop`. -/
def printLevels (fuel : Nat) (m : MarketOrderBook) (label : String) (verbose validityCheck : Bool)
    (side : Side) (last : Price) (start stop : Option LevelPtr) (text : String) :
    Except Fault String :=
  match start with
  | none => .ok text
  | some l =>
    goRound (fun l => (m.level l).nextEntry) (fun l => l = none ∨ l = stop)
      (m.printer fuel label verbose validityCheck side) fuel l (text, last, 0) >>= fun ss =>
        .ok ss.1

/-- The loop over the bids begins at `ask_`, too. -/
def toString (fuel : Nat) (m : MarketOrderBook) (verbose validityCheck : Bool) :
    Except Fault String := do
  let text ← m.printLevels fuel "ASKS L:" verbose validityCheck .sell Int64.minValue m.ask m.ask
    (clientHeader m.instrumentId)
  m.printLevels fuel "BIDS L:" verbose validityCheck .buy Int64.maxValue m.ask m.bid
    (text ++ sidesApart)

end MarketOrderBook

section Client
variable {m : MarketOrderBook} {v : BookView} {fuel : Nat}

/-- Nothing stops the text of a level but its length. -/
theorem Copies.printer_faultless (h : Copies m v) (placed : Side) {l : LevelView}
    (hl : l ∈ v.own placed) (fuel : Nat) (label : String) (verbose sanityCheck : Bool) (side : Side)
    (ss : String × Price × Nat) :
    Faultless (m.printer fuel label verbose sanityCheck side ss l.handle) := by
  have hmem := v.own_subset placed hl
  have hrep := h.represents.level l hmem
  obtain ⟨o, os, horders⟩ := List.exists_cons_of_ne_nil (h.valid.nonempty l hmem)
  have hfirst : (m.level l.handle).firstOrder = some o.handle :=
    hrep.firstOrder.trans (by rw [horders]; rfl)
  have hring : IsRing (fun p => (m.order p).nextOrder) (fun p => (m.order p).prevOrder)
      (l.orders.map (·.handle)) := hrep.ring
  have hhead : o.handle ∈ l.orders.map (·.handle) := by
    rw [horders]
    exact List.mem_cons_self
  have hlevels : IsRing (fun l => (m.level l).nextEntry) (fun l => (m.level l).prevEntry)
      ((v.own placed).map (·.handle)) := (h.represents.sides placed).ring
  obtain ⟨next, -, hnext⟩ := hlevels.exists_next (List.mem_map_of_mem hl)
  obtain ⟨prev, hprev⟩ := hlevels.exists_prev (List.mem_map_of_mem hl)
  have hloop {σ : Type} (f : σ → OrderPtr → σ) (s : σ) :
      Faultless (goRound (fun p => (m.order p).nextOrder) (fun p => decide (p = some o.handle))
        (fun s p => .ok (f s p)) fuel o.handle s) :=
    goRound_faultless (fun _ hp => hring.exists_next hp) (fun _ _ _ => faultless_ok _) fuel _
      hhead s
  simp only [MarketOrderBook.printer, hfirst, hnext, hprev, deref_some, ok_bind]
  refine (hloop (fun (t : Quantity × Nat) p => (t.1 + (m.order p).qty, t.2 + 1)) _).bind fun t => ?_
  refine (hloop (fun text p => if verbose then text ++ clientEntry (m.order p).marketOrderId
    (m.order p).qty (m.linkedId (m.order p).prevOrder) (m.linkedId (m.order p).nextOrder)
    else text) _).bind fun text => ?_
  split <;> exact faultless_ok _

theorem Copies.bid_apart (h : Copies m v) : ∀ l ∈ v.asks.map (·.handle), m.bid ≠ some l := by
  intro l hl hbid
  have hhead : m.bid = (v.bids.map (·.handle)).head? := (h.represents.sides .buy).head
  rw [hhead] at hbid
  have hnodup := h.valid.levels_nodup
  rw [levels, List.map_append] at hnodup
  exact (List.nodup_append.mp hnodup).2.2 l (List.mem_of_mem_head? hbid) l hl rfl

/-- With an ask in the book no fuel is enough, and without one no bid is printed. -/
theorem Copies.toString_eq (h : Copies m v) (fuel : Nat) (verbose validityCheck : Bool) :
    m.toString fuel verbose validityCheck =
      if v.asks = [] then .ok (clientHeader m.instrumentId ++ sidesApart)
      else .error .outOfFuel := by
  have hask : m.ask = (v.asks.map (·.handle)).head? := (h.represents.sides .sell).head
  have hring : IsRing (fun l => (m.level l).nextEntry) (fun l => (m.level l).prevEntry)
      (v.asks.map (·.handle)) := (h.represents.sides .sell).ring
  cases hasks : v.asks with
  | nil =>
    rw [hasks] at hask
    rw [if_pos rfl, MarketOrderBook.toString, hask]
    rfl
  | cons a as =>
    rw [if_neg (List.cons_ne_nil a as)]
    have hfirst : m.ask = some a.handle := by rw [hask, hasks]; rfl
    have hhead : a.handle ∈ v.asks.map (·.handle) := by
      rw [hasks]
      exact List.mem_cons_self
    have hprinter (label : String) (side : Side) : ∀ l ∈ v.asks.map (·.handle), ∀ ss,
        Faultless (m.printer fuel label verbose validityCheck side ss l) := by
      intro l hl ss
      obtain ⟨x, hx, rfl⟩ := List.mem_map.mp hl
      exact h.printer_faultless .sell hx fuel label verbose validityCheck side ss
    have hapart : ∀ l ∈ v.asks.map (·.handle), decide (some l = none ∨ some l = m.bid) = false :=
      fun l hl => decide_eq_false (not_or.mpr ⟨Option.some_ne_none l, (h.bid_apart l hl).symm⟩)
    have hbidsLoop (text : String) : goRound (fun l => (m.level l).nextEntry)
        (fun l => decide (l = none ∨ l = m.bid))
        (m.printer fuel "BIDS L:" verbose validityCheck .buy) fuel a.handle
        (text, Int64.maxValue, 0) = .error .outOfFuel :=
      goRound_endless (fun _ hl => hring.exists_next hl) hapart (hprinter "BIDS L:" .buy) fuel
        a.handle hhead _
    simp only [MarketOrderBook.toString, MarketOrderBook.printLevels, hfirst, hbidsLoop, error_bind]
    cases hprinted : goRound (fun l => (m.level l).nextEntry)
        (fun l => decide (l = none ∨ l = some a.handle))
        (m.printer fuel "ASKS L:" verbose validityCheck .sell) fuel a.handle
        (clientHeader m.instrumentId, Int64.minValue, 0) with
    | error e =>
      have hfault := goRound_faultless (fun _ hl => hring.exists_next hl) (hprinter "ASKS L:" .sell)
        fuel a.handle hhead _ e hprinted
      rw [hfault, error_bind, error_bind]
    | ok ss => rw [ok_bind, ok_bind]

/-- After any updates that fit, the text of the client's book is never finished while the book has
an ask, and otherwise it leaves all bids out. -/
theorem toString_unfinished {i : InstrumentId} {us : List MarketUpdate}
    (hfuel : maxNumOrders < fuel) (ha : PublicBook.AdmitsAll .empty us)
    (hids : ∀ u ∈ us, u.type = .add → u.orderId.toNat < maxNumOrders) :
    ∃ m, (MarketOrderBook.create i).run fuel us = .ok m ∧ m.heap.Shows (publicBook us) ∧
      ∀ enough verbose validityCheck, m.toString enough verbose validityCheck =
        if (publicBook us).asks = [] then .ok (clientHeader m.instrumentId ++ sidesApart)
        else .error .outOfFuel := by
  obtain ⟨m, v, hm, hcopies, hbook⟩ := (Copies.create i).run ha hids hfuel
  have hshows := hcopies.shows
  rw [hbook] at hshows
  refine ⟨m, hm, hshows, fun enough verbose validityCheck => ?_⟩
  have hasks : (publicBook us).asks = v.asks.map LevelView.asPublic :=
    (congrArg PublicBook.asks hbook).symm
  rw [hcopies.toString_eq, hasks]
  simp only [List.map_eq_nil_iff]

/-- A bid alone is left out; with an ask beside it no fuel is enough. -/
theorem toString_unfinished_sample :
    (∃ m, (MarketOrderBook.create 0).run 3000 [⟨.add, 1, 0, .buy, 10, 5, 1⟩] = .ok m ∧
      ∀ enough, m.toString enough true true = .ok (clientHeader m.instrumentId ++ sidesApart)) ∧
    ∃ m, (MarketOrderBook.create 0).run 3000
      [⟨.add, 1, 0, .buy, 10, 5, 1⟩, ⟨.add, 2, 0, .sell, 12, 5, 1⟩] = .ok m ∧
      ∀ enough, m.toString enough true true = .error .outOfFuel := by
  obtain ⟨s, hs, hcheck⟩ := @reached_of_any _ _ _ (OrderBook.call 3000)
    (OrderBook.KeepsPrices 3000) (.create 0) [.add 1 1 .buy 10 5, .add 2 1 .sell 12 5] _
    (fun s => accepts s.sent = 2 ∧ updates s.sent =
      [⟨.add, 1, 0, .buy, 10, 5, 1⟩, ⟨.add, 2, 0, .sell, 12, 5, 1⟩]) (by decide +kernel)
  obtain ⟨haccepts, hupdates⟩ := of_decide_eq_true hcheck
  obtain ⟨v, hr, hpublished⟩ := keepsPrices_published (by decide) hs (by rw [haccepts]; decide)
  have hadmits := hpublished.admits
  rw [← hr.sent, hupdates] at hadmits
  constructor
  · obtain ⟨m, hm, -, htext⟩ := @toString_unfinished 3000 0 [⟨.add, 1, 0, .buy, 10, 5, 1⟩]
      (by decide) ⟨hadmits.1, trivial⟩ (by decide)
    exact ⟨m, hm, fun enough => (htext enough true true).trans (if_pos (by decide))⟩
  · obtain ⟨m, hm, -, htext⟩ := @toString_unfinished 3000 0
      [⟨.add, 1, 0, .buy, 10, 5, 1⟩, ⟨.add, 2, 0, .sell, 12, 5, 1⟩] (by decide) hadmits (by decide)
    exact ⟨m, hm, fun enough => (htext enough true true).trans (if_neg (by decide))⟩

end Client

end StockExchange
