import BlockScript.Json.Reader
import BlockScript.Proofs.Documents
import BlockScript.Proofs.Doubles

/-!
# Accepted documents

A text holds no numbers but 64-bit words and finite doubles (`read?_standard`), and what is read from
such numbers is finite. So every document that is accepted returns from its written form.
-/

namespace BlockScript

open Json

/-! ## Optional results -/

/-- The result has the property, if there is one. -/
def Gives {α : Type} (P : α → Prop) (o : Option α) : Prop :=
  ∀ a, o = some a → P a

section
variable {α β : Type} {P : α → Prop} {Q : β → Prop}

theorem Gives.none : Gives P none :=
  fun _ h => nomatch h

theorem Gives.some {a : α} (h : P a) : Gives P (some a) := by
  rintro _ ⟨⟩
  exact h

theorem Gives.pure {a : α} (h : P a) : Gives P (pure a) :=
  .some h

theorem Gives.any (o : Option α) : Gives (fun _ => True) o :=
  fun _ _ => trivial

theorem Gives.bind {o : Option β} {f : β → Option α} (h : Gives Q o) (next : ∀ b, Q b → Gives P (f b)) :
    Gives P (o >>= f) := by
  intro a ha
  obtain ⟨b, hb, ha⟩ := Option.bind_eq_some_iff.mp ha
  exact next b (h b hb) a ha

theorem Gives.map {o : Option β} {f : β → α} (h : Gives Q o) (kept : ∀ b, Q b → P (f b)) : Gives P (o.map f) := by
  intro a ha
  obtain ⟨b, hb, rfl⟩ := Option.map_eq_some_iff.mp ha
  exact kept b (h b hb)

theorem Gives.two {γ : Type} {R : γ → Prop} {o : Option α} {o' : Option β} {make : α → β → γ} (h : Gives P o)
    (h' : Gives Q o') (kept : ∀ a b, P a → Q b → R (make a b)) : Gives R (do return make (← o) (← o')) :=
  .bind h fun a ha => .bind h' fun b hb => .pure (kept a b ha hb)

theorem Gives.mapM {f : β → Option α} {l : List β} (h : ∀ b ∈ l, Gives P (f b)) :
    Gives (fun r => ∀ a ∈ r, P a) (l.mapM f) := by
  induction l with
  | nil => exact .some fun _ mem => nomatch mem
  | cons b rest ih =>
    rw [List.forall_mem_cons] at h
    rw [List.mapM_cons]
    exact .bind h.1 fun a ha => .bind (ih h.2) fun r hr => .some (List.forall_mem_cons.mpr ⟨ha, hr⟩)

end

/-! ## Parts of a value -/

namespace Json

theorem standardItems_iff (items : List Json) : standardItems items ↔ ∀ j ∈ items, j.standard := by
  induction items with
  | nil => simp [standardItems]
  | cons j rest ih => simp [standardItems, ih]

theorem standardFields_iff (fields : List (String × Json)) :
    standardFields fields ↔ ∀ p ∈ fields, p.2.standard := by
  induction fields with
  | nil => simp [standardFields]
  | cons p rest ih => simp [standardFields, ih]

theorem mem_occurrences {fields : List (String × Json)} {name : String} {j : Json}
    (h : j ∈ occurrences fields name) : (name, j) ∈ fields := by
  obtain ⟨p, mem, rfl⟩ := List.mem_map.mp h
  rw [List.mem_filter, beq_iff_eq] at mem
  rw [← mem.2]
  exact mem.1

/-- The fields of a record are parts of the value. -/
theorem record?_gives {j : Json} (h : j.standard) (names : List String) :
    Gives (fun values => ∀ v ∈ values, Gives (·.standard) v) (j.record? names) := by
  cases j with
  | obj fields =>
    apply Gives.mapM
    intro name _
    split
    · exact .some .none
    · next j found =>
      apply Gives.some
      apply Gives.some
      exact (standardFields_iff fields).mp h _ (mem_occurrences (found ▸ List.mem_singleton_self j))
    · exact .none
  | arr items =>
    simp only [record?]
    split
    · apply Gives.some
      intro v mem
      obtain mem | mem := List.mem_append.mp mem
      · obtain ⟨j, item, rfl⟩ := List.mem_map.mp mem
        exact .some ((standardItems_iff items).mp h j item)
      · rw [List.eq_of_mem_replicate mem]
        exact .none
    · exact .none
  | null | bool | int | real | str | unreadable => exact .none

theorem node?_gives {j : Json} (h : j.standard) (kinds : List String) (inside : Bool) :
    Gives (·.2.standard) (node? kinds inside j) := by
  have parts : Gives (·.2.standard) (untag? j) := by
    cases j with
    | obj fields =>
      simp only [untag?]
      split
      · apply Gives.some
        simp only [standard, standardFields_iff] at h ⊢
        exact fun p mem => h p (List.mem_of_mem_filter mem)
      · exact .none
    | arr items =>
      cases items with
      | nil => exact .none
      | cons tag rest =>
        simp only [standard, standardItems, Bool.and_eq_true] at h
        exact .some h.2
    | null | bool | int | real | str | unreadable => exact .none
  intro found hfound
  rw [node?] at hfound
  split at hfound
  · next tag rest split =>
    obtain ⟨kind, _, rfl⟩ := Option.map_eq_some_iff.mp hfound
    exact parts _ split
  · cases hfound

section
variable {α : Type} {P : α → Prop} {read : Json → Option α}

theorem need?_gives (reads : ∀ j : Json, j.standard → Gives P (read j)) {v : Option Json}
    (h : Gives (·.standard) v) : Gives P (need? read v) := by
  cases v with
  | none => exact .none
  | some j => exact reads j (h j rfl)

theorem orElse?_gives {missing : α} (default : P missing) (reads : ∀ j : Json, j.standard → Gives P (read j))
    {v : Option Json} (h : Gives (·.standard) v) : Gives P (orElse? missing read v) := by
  cases v with
  | none => exact .some default
  | some j => exact reads j (h j rfl)

theorem all?_gives (reads : ∀ j : Json, j.standard → Gives P (read j)) {j : Json} (h : j.standard) :
    Gives (fun l => ∀ a ∈ l, P a) (Json.all? read j) := by
  cases j with
  | arr items => exact .mapM fun j mem => reads j ((standardItems_iff items).mp h j mem)
  | null | bool | int | real | str | obj | unreadable => exact .none

theorem whole?_gives {read : Nat → Json → Option α} {j : Json} (h : ∀ fuel, Gives P (read fuel j)) :
    Gives P (j.whole? read) := by
  rw [whole?]
  split
  · exact h _
  · exact .none

/-! Records by the number of their fields. -/

variable {j : Json} {names : List String}

theorem record1_gives (h : j.standard) {k : Option Json → Option α}
    (next : ∀ a, Gives (·.standard) a → Gives P (k a)) :
    Gives P (do
      let [a] ← j.record? names | none
      k a) := by
  refine .bind (record?_gives h names) fun values hv => ?_
  split
  · next a => exact next a (hv a (by simp))
  · exact .none

theorem record2_gives (h : j.standard) {k : Option Json → Option Json → Option α}
    (next : ∀ a b, Gives (·.standard) a → Gives (·.standard) b → Gives P (k a b)) :
    Gives P (do
      let [a, b] ← j.record? names | none
      k a b) := by
  refine .bind (record?_gives h names) fun values hv => ?_
  split
  · next a b => exact next a b (hv a (by simp)) (hv b (by simp))
  · exact .none

theorem record3_gives (h : j.standard) {k : Option Json → Option Json → Option Json → Option α}
    (next : ∀ a b c, Gives (·.standard) a → Gives (·.standard) b → Gives (·.standard) c → Gives P (k a b c)) :
    Gives P (do
      let [a, b, c] ← j.record? names | none
      k a b c) := by
  refine .bind (record?_gives h names) fun values hv => ?_
  split
  · next a b c => exact next a b c (hv a (by simp)) (hv b (by simp)) (hv c (by simp))
  · exact .none

end

end Json

/-! ## Numbers -/

theorem isFinite_ofNat {n : Nat} (h : n < 2 ^ 64) : (Float.ofNat n).isFinite = true := by
  rw [Number.ofNat_eq]
  apply Number.isFinite_ofRat (Nat.cast_nonneg n)
  exact_mod_cast h

theorem isFinite_ofInt {n : Int} (h : (Json.int n).standard) : (Float.ofInt n).isFinite = true := by
  simp only [standard, Bool.and_eq_true, decide_eq_true_eq] at h
  cases n with
  | ofNat n =>
    rw [Int.ofNat_eq_natCast] at h
    exact isFinite_ofNat (by omega)
  | negSucc n =>
    show (-(Float.ofNat n.succ)).isFinite = true
    rw [Number.isFinite_neg]
    exact isFinite_ofNat (by omega)

theorem Value.ofJson?_gives (j : Json) (h : j.standard) : Gives (·.finite) (Value.ofJson? j) := by
  cases j with
  | int n => exact .some (isFinite_ofInt h)
  | real x => exact .some h
  | null | bool | str => exact .some rfl
  | arr | obj | unreadable => exact .none

theorem float?_gives (j : Json) (h : j.standard) : Gives (·.isFinite) j.float? := by
  cases j with
  | int n => exact .some (isFinite_ofInt h)
  | real x => exact .some h
  | null | bool | str | arr | obj | unreadable => exact .none

/-! ## Scripts -/

theorem exprsFinite_iff (es : List Expr) : exprsFinite es ↔ ∀ e ∈ es, e.finite := by
  induction es with
  | nil => simp [exprsFinite]
  | cons e rest ih => simp [exprsFinite, ih]

theorem blockFinite_iff (b : Block) : blockFinite b ↔ ∀ s ∈ b, s.finite := by
  induction b with
  | nil => simp [blockFinite]
  | cons s rest ih => simp [blockFinite, ih]

theorem Expr.read?_gives (fuel : Nat) (inside : Bool) (j : Json) (h : j.standard) :
    Gives (·.finite) (Expr.read? fuel inside j) := by
  induction fuel generalizing inside j with
  | zero => exact .none
  | succ fuel ih =>
    have expr {v : Option Json} : Gives (·.standard) v → Gives (·.finite) (need? (Expr.read? fuel true) v) :=
      need?_gives (ih true)
    have args {v : Option Json} : Gives (·.standard) v →
        Gives (fun es => ∀ e ∈ es, e.finite) (orElse? [] (Json.all? (Expr.read? fuel true)) v) :=
      orElse?_gives (fun _ mem => nomatch mem) fun j h => all?_gives (ih true) h
    have both {a b : Bool} (ha : a) (hb : b) : (a && b) = true := Bool.and_eq_true_iff.mpr ⟨ha, hb⟩
    rw [Expr.read?]
    refine .bind (node?_gives h Expr.kinds inside) fun (kind, rest) hrest => ?_
    dsimp only
    -- the kinds in their order
    split
    · exact record1_gives hrest fun _ hv => .bind (need?_gives Value.ofJson?_gives hv) fun _ hv => .pure hv
    · exact record1_gives hrest fun _ _ => .bind (.any _) fun _ _ => .pure rfl
    · exact record1_gives hrest fun _ _ => .bind (.any _) fun _ _ => .pure rfl
    · exact record2_gives hrest fun _ _ _ hi => .two (.any _) (expr hi) fun _ _ _ hi => hi
    · exact record1_gives hrest fun _ _ => .bind (.any _) fun _ _ => .pure rfl
    · refine record3_gives hrest fun _ _ _ _ hl hr => .bind (.any _) fun _ _ => ?_
      exact .two (expr hl) (expr hr) fun _ _ hl hr => both hl hr
    · refine record3_gives hrest fun _ _ _ _ hl hr => .bind (.any _) fun _ _ => ?_
      exact .two (expr hl) (expr hr) fun _ _ hl hr => both hl hr
    · exact record2_gives hrest fun _ _ hl hr => .two (expr hl) (expr hr) fun _ _ hl hr => both hl hr
    · exact record2_gives hrest fun _ _ hl hr => .two (expr hl) (expr hr) fun _ _ hl hr => both hl hr
    · exact record1_gives hrest fun _ hi => .bind (expr hi) fun _ hi => .pure hi
    · exact record2_gives hrest fun _ _ hl hr => .two (expr hl) (expr hr) fun _ _ hl hr => both hl hr
    · exact record2_gives hrest fun _ _ _ hi => .two (.any _) (expr hi) fun _ _ _ hi => hi
    · refine record3_gives hrest fun _ _ _ _ _ hg => .bind (.any _) fun _ _ => ?_
      exact .two (.any _) (args hg) fun _ given _ hg => (exprsFinite_iff given).mpr hg
    · exact .none

theorem Stmt.read?_gives (fuel : Nat) (inside : Bool) (j : Json) (h : j.standard) :
    Gives (·.finite) (Stmt.read? fuel inside j) := by
  induction fuel generalizing inside j with
  | zero => exact .none
  | succ fuel ih =>
    have expr {v : Option Json} : Gives (·.standard) v → Gives (·.finite) (need? (Expr.read? fuel true) v) :=
      need?_gives (Expr.read?_gives fuel true)
    have args {v : Option Json} : Gives (·.standard) v →
        Gives (fun es => ∀ e ∈ es, e.finite) (orElse? [] (Json.all? (Expr.read? fuel true)) v) :=
      orElse?_gives (List.forall_mem_nil _) fun j h => all?_gives (Expr.read?_gives fuel true) h
    have block (j : Json) (h : j.standard) :
        Gives (fun b => ∀ s ∈ b, s.finite) (Json.all? (Stmt.read? fuel true) j) :=
      all?_gives (ih true) h
    have both {a b : Bool} (ha : a) (hb : b) : (a && b) = true := Bool.and_eq_true_iff.mpr ⟨ha, hb⟩
    rw [Stmt.read?]
    refine .bind (node?_gives h Stmt.kinds inside) fun node hrest => ?_
    obtain ⟨kind, rest⟩ := node
    dsimp only
    split
    · refine record3_gives hrest fun _ _ _ ht hy hn => .bind (expr ht) fun _ ht => ?_
      refine .two (need?_gives block hy) (orElse?_gives (List.forall_mem_nil _) block hn) fun yes no hy hn => ?_
      exact both ht (both ((blockFinite_iff yes).mpr hy) ((blockFinite_iff no).mpr hn))
    · exact record2_gives hrest fun _ _ _ hv => .two (.any _) (expr hv) fun _ _ _ hv => hv
    · exact record2_gives hrest fun _ _ _ hv => .two (.any _) (expr hv) fun _ _ _ hv => hv
    · exact record2_gives hrest fun _ _ _ hv => .two (.any _) (expr hv) fun _ _ _ hv => hv
    · refine record3_gives hrest fun _ _ _ _ hi hv => .bind (.any _) fun _ _ => ?_
      exact .two (expr hi) (expr hv) fun _ _ hi hv => both hi hv
    · refine record3_gives hrest fun _ _ _ _ hi hv => .bind (.any _) fun _ _ => ?_
      exact .two (expr hi) (expr hv) fun _ _ hi hv => both hi hv
    · exact record2_gives hrest fun _ _ _ hi => .two (.any _) (expr hi) fun _ _ _ hi => hi
    · exact record2_gives hrest fun _ _ _ hv => .two (.any _) (expr hv) fun _ _ _ hv => hv
    · exact record2_gives hrest fun _ _ _ hv => .two (.any _) (expr hv) fun _ _ _ hv => hv
    · exact record2_gives hrest fun _ _ hx hy => .two (expr hx) (expr hy) fun _ _ hx hy => both hx hy
    · refine record3_gives hrest fun _ _ _ _ _ hg => .bind (.any _) fun _ _ => ?_
      exact .two (.any _) (args hg) fun _ given _ hg => (exprsFinite_iff given).mpr hg
    · exact record1_gives hrest fun _ _ => .bind (.any _) fun _ _ => .pure rfl
    · exact record1_gives hrest fun _ _ => .bind (.any _) fun _ _ => .pure rfl
    · refine record3_gives hrest fun _ _ _ _ hg _ => .bind (.any _) fun _ _ => ?_
      exact .two (args hg) (.any _) fun given _ hg _ => (exprsFinite_iff given).mpr hg
    · exact .bind (.any _) fun _ _ => .pure rfl
    · exact .bind (.any _) fun _ _ => .pure rfl
    · exact record1_gives hrest fun _ _ => .bind (.any _) fun _ _ => .pure rfl
    · exact .none

/-! ## Programs and targets -/

theorem Entry.ofJson?_gives (j : Json) (h : j.standard) : Gives (·.finite) (Entry.ofJson? j) := by
  apply whole?_gives
  intro fuel
  refine .bind (node?_gives h Entry.kinds false) fun (kind, rest) hrest => ?_
  dsimp only
  split
  · refine record1_gives hrest fun _ hb => ?_
    refine .bind (need?_gives (fun j h => all?_gives (Stmt.read?_gives fuel true) h) hb) fun body hb => ?_
    exact .pure ((blockFinite_iff body).mpr hb)
  · exact record2_gives hrest fun _ _ _ _ => .two (.any _) (.any _) fun _ _ _ _ => rfl
  · exact .none

theorem Program.ofJson?_gives (j : Json) (h : j.standard) : Gives (·.finite) (Program.ofJson? j) := by
  refine record3_gives h fun _ _ _ _ hl _ => .bind (.any _) fun _ _ => ?_
  refine .bind (need?_gives (fun j h => all?_gives Entry.ofJson?_gives h) hl) fun labels hl => ?_
  exact .bind (.any _) fun _ _ => .pure (List.all_eq_true.mpr hl)

theorem fragmentOfJson?_gives (j : Json) (h : j.standard) : Gives (fun b => blockFinite b) (fragmentOfJson? j) := by
  refine record1_gives h fun _ hb => need?_gives (fun j h body hbody => ?_) hb
  have stmt (j : Json) (h : j.standard) : Gives (·.finite) (Stmt.ofJson? j) :=
    whole?_gives fun fuel => Stmt.read?_gives fuel false j h
  exact (blockFinite_iff body).mpr (all?_gives stmt h body hbody)

theorem ItemList.ofJson?_gives (j : Json) (h : j.standard) : Gives (·.finite) (ItemList.ofJson? j) := by
  refine record2_gives h fun _ _ hi _ => ?_
  refine .two (need?_gives (fun j h => all?_gives Value.ofJson?_gives h) hi) (.any _) fun items _ hi _ => ?_
  exact List.all_eq_true.mpr hi

theorem Json.table?_gives {κ α : Type} [DecidableEq κ] {key : String → Option κ} {read : Json → Option α}
    {P : α → Prop} (reads : ∀ j : Json, j.standard → Gives P (read j)) (j : Json) (h : j.standard) :
    Gives (fun t => ∀ p ∈ t.pairs, P p.2) (Json.table? key read j) := by
  cases j with
  | obj fields =>
    have pairs : Gives (fun pairs => ∀ p ∈ pairs, P p.2)
        (fields.mapM fun p => do return ((← key p.1, ← read p.2) : κ × α)) := by
      apply Gives.mapM
      intro p mem
      exact .two (.any _) (reads p.2 ((standardFields_iff fields).mp h p mem)) fun _ _ _ ha => ha
    exact .bind pairs fun pairs hp => .pure fun p mem => hp p (Table.mem_of_mem_ofPairs mem)
  | null | bool | int | real | str | arr | unreadable => exact .none

theorem Target.ofJson?_gives (j : Json) (h : j.standard) : Gives (·.finite) (Target.ofJson? j) := by
  refine .bind (record?_gives h _) fun values hv => ?_
  split
  · next name x y effects vars lists =>
    simp only [List.mem_cons, forall_eq_or_imp] at hv
    obtain ⟨_, hx, hy, he, hv, hl, _⟩ := hv
    refine .bind (.any _) fun _ _ => .bind (need?_gives float?_gives hx) fun x hx => ?_
    refine .bind (need?_gives float?_gives hy) fun y hy => ?_
    refine .bind (orElse?_gives (fun _ mem => nomatch mem) (table?_gives float?_gives) he) fun effects he => ?_
    refine .bind (orElse?_gives (fun _ mem => nomatch mem) (table?_gives Value.ofJson?_gives) hv) fun vars hv => ?_
    refine .bind (orElse?_gives (fun _ mem => nomatch mem) (table?_gives ItemList.ofJson?_gives) hl)
      fun lists hl => ?_
    apply Gives.pure
    simp only [Target.finite, Bool.and_eq_true, List.all_eq_true]
    exact ⟨hx, hy, he, hv, hl⟩
  · exact .none

/-! ## Numbers in text -/

namespace Json

theorem fill_lt {word : Nat} (h : word < 2 ^ 64) (digits : List Char) : (fill word digits).1 < 2 ^ 64 := by
  induction digits generalizing word with
  | nil => exact h
  | cons c rest ih =>
    rw [fill]
    split
    · next fits => exact ih fits
    · exact h

theorem integer?_gives (negative : Bool) (digits : List Char) : Gives (·.standard) (integer? negative digits) := by
  have bound := fill_lt (by decide : 0 < 2 ^ 64) digits
  rw [integer?]
  split
  · next n found =>
    rw [found] at bound
    split
    · apply Gives.some
      simp only [standard, Bool.and_eq_true, decide_eq_true_eq]
      omega
    · split
      · next fits =>
        have word := fits.2
        simp only [Number.isWord, Bool.and_eq_true, decide_eq_true_eq] at word
        apply Gives.some
        simp only [standard, Bool.and_eq_true, decide_eq_true_eq]
        omega
      · exact .none
  · exact .none

theorem isFinite_of_beq_zero {x : Float} (h : (x == 0.0) = true) : x.isFinite = true := by
  obtain ⟨_, _, rfl | ⟨rfl, _⟩ | ⟨rfl, _⟩⟩ := Float.beq_iff_ne_nan_and_eq.mp h
  all_goals rfl

theorem scale?_gives (x : Float) (e : Int) : Gives (·.isFinite) (scale? x e) := by
  fun_induction scale? x e with
  | case1 x e _ y finite => exact .some finite
  | case3 x e _ zero => exact .some (isFinite_of_beq_zero zero)
  | case5 x e _ _ _ ih => exact ih
  | case2 | case4 => exact .none

theorem ofDigits_standard (negative : Bool) (whole fraction : List Char) (exponent : Int) :
    (ofDigits negative whole fraction exponent).standard := by
  rw [ofDigits]
  split
  · next x found =>
    have finite := scale?_gives _ _ x found
    cases negative with
    | true => exact (Number.isFinite_neg x).trans finite
    | false => exact finite
  · rfl

theorem number?_gives (text : List Char) : Gives (·.1.standard) (number? text) := by
  unfold number?
  refine .bind (.any _) fun (whole, rest) _ => ?_
  dsimp only
  split
  · next j found =>
    apply Gives.pure
    split at found
    · exact integer?_gives _ _ j found
    · cases found
  · exact .bind (.any _) fun _ _ => .bind (.any _) fun _ _ => .pure (ofDigits_standard _ _ _ _)

/-! ## Texts -/

/-- What the three readers of values, items and fields give with a certain fuel. -/
structure ReadsStandard (fuel : Nat) : Prop where
  value (depth : Nat) (text : List Char) : Gives (·.1.standard) (value? fuel depth text)
  items (depth : Nat) (text : List Char) : Gives (fun r => standardItems r.1) (items? fuel depth text)
  fields (depth : Nat) (text : List Char) : Gives (fun r => ∀ p ∈ r.1, p.2.standard) (fields? fuel depth text)

theorem ReadsStandard.value?_succ {fuel : Nat} (ih : ReadsStandard fuel) (depth : Nat) (text : List Char) :
    Gives (·.1.standard) (value? (fuel + 1) depth text) := by
  rw [value?]
  split
  · refine .bind (.any _) fun read _ => .pure ?_
    obtain ⟨s, rest⟩ := read
    cases s <;> rfl
  · have closed (items : List Json) (h : standardItems items) :
        (if depth = 0 then .unreadable else Json.arr items).standard := by
      split
      · rfl
      · exact h
    dsimp only
    split
    · exact .pure (closed [] rfl)
    · exact .bind (ih.items _ _) fun r hr => .pure (closed r.1 hr)
  · have closed (fields : List (Option String × Json)) (h : ∀ p ∈ fields, p.2.standard) :
        (if depth = 0 ∨ fields.any (·.1.isNone) then .unreadable
          else Json.obj (fields.map fun p => (p.1.getD "", p.2))).standard := by
      split
      · rfl
      · rw [standard, standardFields_iff]
        intro p mem
        obtain ⟨q, inner, rfl⟩ := List.mem_map.mp mem
        exact h q inner
    dsimp only
    split
    · exact .pure (closed [] (List.forall_mem_nil _))
    · exact .bind (ih.fields _ _) fun r hr => .pure (closed r.1 hr)
  · exact .map (.any _) fun _ _ => rfl
  · exact .map (.any _) fun _ _ => rfl
  · exact .map (.any _) fun _ _ => rfl
  · exact number?_gives _

theorem ReadsStandard.items?_succ {fuel : Nat} (ih : ReadsStandard fuel) (depth : Nat) (text : List Char) :
    Gives (fun r => standardItems r.1) (items? (fuel + 1) depth text) := by
  rw [items?]
  refine .bind (ih.value depth text) fun (j, rest) hj => ?_
  dsimp only
  split
  · refine .bind (ih.items depth _) fun (items, rest) hitems => .pure ?_
    simp [standardItems, hj, hitems]
  · exact .pure (by simp [standardItems, hj])
  · exact .none

theorem ReadsStandard.fields?_succ {fuel : Nat} (ih : ReadsStandard fuel) (depth : Nat) (text : List Char) :
    Gives (fun r => ∀ p ∈ r.1, p.2.standard) (fields? (fuel + 1) depth text) := by
  rw [fields?]
  split
  · refine .bind (.any _) fun (key, rest) _ => ?_
    dsimp only
    split
    · refine .bind (ih.value depth _) fun (j, rest) hj => ?_
      dsimp only
      split
      · refine .bind (ih.fields depth _) fun (fields, rest) hfields => .pure ?_
        exact List.forall_mem_cons.mpr ⟨hj, hfields⟩
      · exact .pure (List.forall_mem_singleton.mpr hj)
      · exact .none
    · exact .none
  · exact .none

theorem readsStandard (fuel : Nat) : ReadsStandard fuel := by
  induction fuel with
  | zero => exact ⟨fun _ _ => .none, fun _ _ => .none, fun _ _ => .none⟩
  | succ fuel ih => exact ⟨ih.value?_succ, ih.items?_succ, ih.fields?_succ⟩

theorem read?_standard {text : String} {j : Json} (h : Json.read? text = some j) : j.standard := by
  rw [Json.read?] at h
  split at h
  · next found =>
    split at h
    · cases h
      exact (readsStandard _).value _ _ _ found
    · cases h
  · cases h

end Json

/-! ## Every document returns -/

/-- Whatever has only finite numbers returns from what is written of it, and so does whatever is read
from a text. -/
theorem documents_return :
    (∀ p : Program, p.finite → Returns Program.toJson Program.ofJson? Eq p) ∧
    (∀ b : Block, blockFinite b → Returns fragmentToJson fragmentOfJson? Eq b) ∧
    (∀ l : ItemList, l.finite → Returns ItemList.toJson ItemList.ofJson? Eq l) ∧
    (∀ t : Target, t.finite → Returns Target.toJson Target.ofJson? Target.Same t) ∧
    ∀ text j, Json.read? text = some j →
      Gives (Returns Program.toJson Program.ofJson? Eq) (Program.ofJson? j) ∧
      Gives (Returns fragmentToJson fragmentOfJson? Eq) (fragmentOfJson? j) ∧
      Gives (Returns ItemList.toJson ItemList.ofJson? Eq) (ItemList.ofJson? j) ∧
      Gives (Returns Target.toJson Target.ofJson? Target.Same) (Target.ofJson? j) := by
  refine ⟨Program.returns, fragment_returns, ItemList.returns, Target.returns, fun text j h => ?_⟩
  have standard := read?_standard h
  refine ⟨fun p hp => ?_, fun b hb => ?_, fun l hl => ?_, fun t ht => ?_⟩
  · exact p.returns (Program.ofJson?_gives j standard p hp)
  · exact fragment_returns b (fragmentOfJson?_gives j standard b hb)
  · exact l.returns (ItemList.ofJson?_gives j standard l hl)
  · exact t.returns (Target.ofJson?_gives j standard t ht)

/-- A program with a negative zero in it, and a list read from a text that gives its fields in order. -/
theorem documents_return_negative_zero :
    (let p : Program :=
      ⟨⟨0⟩, #[.fragment [.branch (.lit (.num (-0.0))) [.finish] [.marker ⟨3⟩]], .continuation ⟨0⟩ ⟨3⟩],
        #[⟨"go", ⟨0⟩, true⟩]⟩
    p.finite ∧ Program.ofJson? p.toJson.written = some p) ∧
    (let l : ItemList := ⟨[.num (.ofInt 1)], true⟩
    Json.read? "[[1], true]" = some (.arr [.arr [.int 1], .bool true]) ∧
      ItemList.ofJson? l.toJson.written = some l) := by
  constructor
  · intro p
    have finite : p.finite := by decide
    obtain ⟨q, read, rfl⟩ := documents_return.1 p finite _ (Alike.refl _)
    exact ⟨finite, read⟩
  · intro l
    have text : Json.read? "[[1], true]" = some (.arr [.arr [.int 1], .bool true]) := by cbv
    have accepted : ItemList.ofJson? (.arr [.arr [.int 1], .bool true]) = some l := rfl
    obtain ⟨_, read, rfl⟩ := (documents_return.2.2.2.2 _ _ text).2.2.1 l accepted _ (Alike.refl _)
    exact ⟨text, read⟩

end BlockScript
