import Mathlib.Data.List.Forall2
import TemplateCompiler.Proofs.Code.Lift
import TemplateCompiler.Proofs.Generator.Legible
import TemplateCompiler.Proofs.Listener.Store

/-!
# Static and dynamic listeners

In code, the listeners of a static name stand in an object, and those of a name that is known only at run time in a
list behind it (`KeyedEntries.written`). Which of the two it is, is decided for each list of a table, and not for each
listener (`sorted_eventsEntries`). A table has one list for a static name and an expression of the same text. So a
dynamic listener always is where it belongs, and a static one exactly if no dynamic one in its table has a name of the
same text (`listeners_by_name`).
-/

namespace TemplateCompiler

/-! ## Entries in code -/

namespace KeyedEntries

/-- The object of the entries with fixed names. -/
def object (k : KeyedEntries) (names : Names) : String :=
  "\x7b" ++ ",".intercalate (k.fixed.map fun e => "\"" ++ e.1 ++ "\":" ++ e.2.render names) ++ "\x7d"

/-- The text of entries. -/
def written (k : KeyedEntries) (names : Names) : String :=
  if k.dynamic.isEmpty then k.object names
  else names .bindDynamicKeys ++ "(" ++ k.object names ++ ",[" ++
    ",".intercalate (k.dynamic.map fun e => e.1 ++ "," ++ e.2.render names) ++ "])"

theorem render_code (k : KeyedEntries) (names : Names) : k.code.render names = k.written names := by
  have hfixed := Code.render_join names "," (k.fixed.map fun e => Code.text ("\"" ++ e.1 ++ "\":") ++ e.2)
  have hdynamic := Code.render_join names "," (k.dynamic.map fun e => Code.text (e.1 ++ ",") ++ e.2)
  rw [List.map_map] at hfixed hdynamic
  unfold code written object
  split
  · exact congrArg (fun t => "\x7b" ++ t ++ "\x7d") hfixed
  · have hrender (fixed dynamic : Code) : (Code.callHelper .bindDynamicKeys (Code.text "\x7b" ++ fixed ++
        Code.text "\x7d" ++ Code.text ",[" ++ dynamic ++ Code.text "]")).render names =
        names .bindDynamicKeys ++ "(" ++ ("\x7b" ++ fixed.render names ++ "\x7d") ++ ",[" ++ dynamic.render names ++
          "])" := by
      show names .bindDynamicKeys ++ "(" ++ ("\x7b" ++ fixed.render names ++ "\x7d" ++ ",[" ++ dynamic.render names ++
        "]") ++ ")" = _
      rw [← String.toList_inj]
      simp
    rw [hrender, hfixed, hdynamic]
    rfl

end KeyedEntries

/-- The entry of a list of listeners. -/
def EntryOf (list : String × List Handler) (entry : String × Code) : Prop :=
  entry.1 = list.1 ∧ handlersCode list.2 = .ok entry.2

def isDynamic (list : String × List Handler) : Bool :=
  list.2.any Handler.dynamic

/-- Entries for all lists of a table, in its order. A list with any dynamic listener counts as dynamic. -/
structure KeyedEntries.Sorts (k : KeyedEntries) (events : Events) : Prop where
  fixed : List.Forall₂ EntryOf (events.filter fun list => !isDynamic list) k.fixed
  dynamic : List.Forall₂ EntryOf (events.filter isDynamic) k.dynamic

theorem KeyedEntries.Sorts.add {k : KeyedEntries} {events : Events} (h : k.Sorts events)
    {list : String × List Handler} {c : Code} (hc : handlersCode list.2 = .ok c) :
    (k.add list.1 (isDynamic list) c).Sorts (events ++ [list]) := by
  have hentry : List.Forall₂ EntryOf [list] [(list.1, c)] := .cons ⟨rfl, hc⟩ .nil
  cases hlist : isDynamic list with
  | true =>
    constructor
    · simpa [KeyedEntries.add, hlist] using h.fixed
    · simpa [KeyedEntries.add, hlist] using List.rel_append h.dynamic hentry
  | false =>
    constructor
    · simpa [KeyedEntries.add, hlist] using List.rel_append h.fixed hentry
    · simpa [KeyedEntries.add, hlist] using h.dynamic

theorem sorted_eventsEntries {events : Events} {k : KeyedEntries} (h : eventsEntries events = .ok k) :
    k.Sorts events := by
  have hfold {seen rest : Events} {k₀ : KeyedEntries} (hk₀ : k₀.Sorts seen) (h : rest.foldlM (fun k e => do
      let code ← handlersCode e.2
      return k.add e.1 (e.2.any (·.dynamic)) code) k₀ = .ok k) : k.Sorts (seen ++ rest) := by
    induction rest generalizing seen k₀ with
    | nil =>
      cases h
      rwa [List.append_nil]
    | cons list rest ih =>
      rw [List.foldlM_cons] at h
      obtain ⟨k₁, hk₁, h⟩ := bind_ok h
      obtain ⟨c, hc, hk₁⟩ := bind_ok hk₁
      cases hk₁
      rw [List.append_cons]
      exact ih (hk₀.add hc) h
  have hnone : KeyedEntries.Sorts {} [] := ⟨.nil, .nil⟩
  exact hfold hnone h

theorem exists_of_forall₂ {α β : Type} {R : α → β → Prop} {as : List α} {bs : List β} (h : List.Forall₂ R as bs)
    {a : α} (ha : a ∈ as) : ∃ b ∈ bs, R a b := by
  induction h with
  | nil => cases ha
  | @cons _ b _ _ hab _ ih =>
    rcases List.mem_cons.mp ha with rfl | ha
    · exact ⟨b, List.mem_cons_self .., hab⟩
    · obtain ⟨b', hb', hab'⟩ := ih ha
      exact ⟨b', List.mem_cons_of_mem _ hb', hab'⟩

namespace KeyedEntries.Sorts

variable {k : KeyedEntries} {events : Events}

/-- The entry of a list is on one side only. -/
theorem exists_entry (h : k.Sorts events) (hkeys : (Table.keys events).Nodup) {name : String} {hs : List Handler}
    (hlist : (name, hs) ∈ events) : ∃ c, handlersCode hs = .ok c ∧
      if hs.any Handler.dynamic then (name, c) ∈ k.dynamic ∧ name ∉ k.fixed.map Prod.fst
      else (name, c) ∈ k.fixed ∧ name ∉ k.dynamic.map Prod.fst := by
  have hside {p : String × List Handler → Bool} {entries : List (String × Code)}
      (hp : List.Forall₂ EntryOf (events.filter p) entries) (hname : name ∈ entries.map Prod.fst) :
      p (name, hs) = true := by
    obtain ⟨entry, hentry, rfl⟩ := List.mem_map.mp hname
    obtain ⟨list, hmem, heq, -⟩ := exists_of_forall₂ hp.flip hentry
    obtain ⟨hmem, hdynamic⟩ := List.mem_filter.mp hmem
    exact List.inj_on_of_nodup_map hkeys hmem hlist heq.symm ▸ hdynamic
  cases hdynamic : hs.any Handler.dynamic with
  | true =>
    obtain ⟨⟨_, c⟩, hentry, rfl, hc⟩ := exists_of_forall₂ h.dynamic (List.mem_filter.mpr ⟨hlist, hdynamic⟩)
    refine ⟨c, hc, hentry, fun hname => ?_⟩
    simpa [isDynamic, hdynamic] using hside h.fixed hname
  | false =>
    have hfixed : (!isDynamic (name, hs)) = true := by rw [isDynamic, hdynamic]; rfl
    obtain ⟨⟨_, c⟩, hentry, rfl, hc⟩ := exists_of_forall₂ h.fixed (List.mem_filter.mpr ⟨hlist, hfixed⟩)
    refine ⟨c, hc, hentry, fun hname => ?_⟩
    simpa [isDynamic, hdynamic] using hside h.dynamic hname

end KeyedEntries.Sorts

/-! ## Listeners that are added to an element -/

namespace Listener

/-- A dynamic listener in the list that a listener goes to: one that was added to the element, or one that was there. -/
def meetsDynamic (e : Element) (calls : List Listener) (l : Listener) : Bool :=
  (calls.any fun other => goesTo (l.asks "native") l.fullName other && other.dynamic) ||
    ((Table.get? l.fullName (e.listeners (l.asks "native"))).getD []).any Handler.dynamic

theorem mem_inOrder {made : Listener → Handler} {calls : List Listener} {old : List Handler} {h : Handler} :
    h ∈ inOrder made calls old ↔ (∃ l ∈ calls, made l = h) ∨ h ∈ old := by
  simp only [inOrder, List.mem_append, List.mem_map, List.mem_reverse, List.mem_filter]
  refine ⟨?_, fun hmem => ?_⟩
  · rintro ((⟨l, ⟨hl, -⟩, rfl⟩ | hold) | ⟨l, ⟨hl, -⟩, rfl⟩)
    · exact .inl ⟨l, hl, rfl⟩
    · exact .inr hold
    · exact .inl ⟨l, hl, rfl⟩
  · rcases hmem with ⟨l, hl, rfl⟩ | hold
    · cases himportant : l.important with
      | true => exact .inl (.inl ⟨l, ⟨hl, himportant⟩, rfl⟩)
      | false => exact .inr ⟨l, ⟨hl, by rw [himportant]; rfl⟩, rfl⟩
    · exact .inl (.inr hold)

/-- A list is dynamic if any of the calls that go there is, or anything that was there. -/
theorem any_inOrder (calls : List Listener) (old : List Handler) (native : Bool) (name : String) :
    (inOrder handler (calls.filter (goesTo native name)) old).any Handler.dynamic =
      ((calls.any fun l => goesTo native name l && l.dynamic) || old.any Handler.dynamic) := by
  rw [Bool.eq_iff_iff]
  simp only [List.any_eq_true, Bool.or_eq_true, mem_inOrder, List.mem_filter, Bool.and_eq_true]
  refine ⟨?_, ?_⟩
  · rintro ⟨h, ⟨l, ⟨hl, hto⟩, rfl⟩ | hold, hdynamic⟩
    · exact .inl ⟨l, hl, hto, hdynamic⟩
    · exact .inr ⟨h, hold, hdynamic⟩
  · rintro (⟨l, hl, hto, hdynamic⟩ | ⟨h, hold, hdynamic⟩)
    · exact ⟨l.handler, .inl ⟨l, ⟨hl, hto⟩, rfl⟩, hdynamic⟩
    · exact ⟨h, .inr hold, hdynamic⟩

theorem keys_erase_subset {key : Json} {m : Modifiers} : Table.keys (Table.erase key m) ⊆ Table.keys m := by
  induction m with
  | nil => exact List.Subset.refl _
  | cons e rest ih =>
    rw [Table.erase]
    split
    · exact List.subset_cons_self ..
    · exact List.cons_subset_cons _ ih

/-- The modifiers that are left are among those that were given. -/
theorem keys_resolve_subset {l : Listener} {m : Modifiers} (h : l.resolve.2.2 = some m) :
    Table.keys m ⊆ Table.keys (l.modifiers.getD []) := by
  have herased (keys : List String) (m : Modifiers) :
      Table.keys (keys.foldl (fun m key => Table.erase (.string key) m) m) ⊆ Table.keys m := by
    induction keys generalizing m with
    | nil => exact List.Subset.refl _
    | cons key keys ih => exact List.Subset.trans (ih _) keys_erase_subset
  cases hgiven : l.given with
  | none =>
    rw [resolve, hgiven] at h
    cases h
  | some given =>
    have hactual : Table.keys (l.actualName given).2 ⊆ Table.keys given := by
      rw [actualName_eq hgiven]
      dsimp only
      split
      · exact keys_erase_subset
      · exact List.Subset.refl _
    rw [resolve_eq_of_given hgiven] at h
    cases h
    rw [(Option.filter_eq_some_iff.mp hgiven).1]
    exact List.Subset.trans keys_erase_subset (List.Subset.trans (herased _ _) hactual)

/-- A listener can be written if its modifiers are texts and the numbers in its keys can be read. -/
theorem legible_handler {l : Listener} (h : ∀ key ∈ Table.keys (l.modifiers.getD []), Readable key) :
    l.handler.Legible fun _ => False :=
  ⟨.inr ⟨_, rfl⟩, .inr fun _ hm key hkey => h key (keys_resolve_subset hm hkey)⟩

theorem legible_listeners {e : Element} {native : Bool} (he : (e.listeners native).Legible fun _ => False)
    {calls : List Listener} (hcalls : ∀ l ∈ calls, ∀ key ∈ Table.keys (l.modifiers.getD []), Readable key) :
    ((calls.foldl Element.addHandler e).listeners native).Legible fun _ => False := by
  intro list hlist h hh
  have hmem := List.mem_flatMap.mpr ⟨list, hlist, hh⟩
  rcases List.mem_append.mp ((perm_listeners calls e native).subset hmem) with hold | hnew
  · obtain ⟨old, hold, hh⟩ := List.mem_flatMap.mp hold
    exact he old hold h hh
  · obtain ⟨l, hl, rfl⟩ := List.mem_map.mp hnew
    exact legible_handler (hcalls l (List.mem_filter.mp hl).1)

/-- Listeners are added to an element one after another, and one of its tables is written. It is written if the
modifiers can be read. Every listener of the table is in the entry under its name. This entry is among those whose
name is an expression if the listener is dynamic, and also if it is static and meets a dynamic one. Only without such a
meeting it is an entry of the object. -/
theorem listeners_by_name {e : Element} {native : Bool} (hkeys : (Table.keys (e.listeners native)).Nodup)
    (calls : List Listener) (names : Names) :
    ((e.listeners native).Legible (fun _ => False) →
      (∀ l ∈ calls, ∀ key ∈ Table.keys (l.modifiers.getD []), Readable key) →
      ∃ c, eventsCode ((calls.foldl Element.addHandler e).listeners native) native = .ok c) ∧
    ∀ c, eventsCode ((calls.foldl Element.addHandler e).listeners native) native = .ok c →
      ∃ k : KeyedEntries, c.render names = (if native then "nativeOn:" else "on:") ++ k.written names ∧
        ∀ l ∈ calls, l.asks "native" = native → ∃ hs entry, l.handler ∈ hs ∧ handlersCode hs = .ok entry ∧
          if l.dynamic || l.meetsDynamic e calls then
            (l.fullName, entry) ∈ k.dynamic ∧ l.fullName ∉ k.fixed.map Prod.fst
          else (l.fullName, entry) ∈ k.fixed ∧ l.fullName ∉ k.dynamic.map Prod.fst := by
  refine ⟨fun he hcalls => ?_, fun c hc => ?_⟩
  · cases hcode : eventsCode ((calls.foldl Element.addHandler e).listeners native) native with
    | ok c => exact ⟨c, rfl⟩
    | error f => exact ((legible_listeners he hcalls).code native f hcode).elim
  · obtain ⟨k, hk, hc⟩ := bind_ok hc
    cases hc
    refine ⟨k, ?_, fun l hl htable => ?_⟩
    · show (if native then "nativeOn:" else "on:") ++ k.code.render names = _
      rw [k.render_code]
    · subst htable
      have hto : goesTo (l.asks "native") l.fullName l = true := by simp [goesTo]
      have hlist := Table.mem_of_get? (get?_listeners calls e _ _ hl hto)
      have hself : l.handler ∈ inOrder handler (calls.filter (goesTo (l.asks "native") l.fullName))
          ((Table.get? l.fullName (e.listeners (l.asks "native"))).getD []) :=
        mem_inOrder.mpr (.inl ⟨l, List.mem_filter.mpr ⟨hl, hto⟩, rfl⟩)
      obtain ⟨entry, hentry, hside⟩ :=
        (sorted_eventsEntries hk).exists_entry (nodup_keys_listeners calls e _ hkeys) hlist
      refine ⟨_, entry, hself, hentry, ?_⟩
      rw [any_inOrder] at hside
      have hmeets : (l.dynamic || l.meetsDynamic e calls) = l.meetsDynamic e calls := by
        cases hdynamic : l.dynamic with
        | false => rfl
        | true =>
          have hany : (calls.any fun other => goesTo (l.asks "native") l.fullName other && other.dynamic) = true :=
            List.any_eq_true.mpr ⟨l, hl, by rw [hto, hdynamic]; rfl⟩
          rw [meetsDynamic, hany]
          rfl
      rw [hmeets]
      exact hside

/-- A static and a dynamic listener whose names have the same text, and one with a name of its own. -/
def namesakes : List Listener :=
  [{ name := "evt", value := "a" }, { name := "evt", value := "b", dynamic := true }, { name := "click", value := "c" }]

/-- The static listener for `evt` is written as one for the event that the expression `evt` gives. -/
theorem listeners_by_name_namesakes :
    ∃ c, eventsCode ((namesakes.foldl Element.addHandler { tag := "div" }).listeners false) false = .ok c ∧
      c.render Names.standard = "on:_d(\x7b\"click\":c\x7d,[evt,[a,b]])" ∧
      ∃ k : KeyedEntries, c.render Names.standard = "on:" ++ k.written Names.standard ∧
        "evt" ∉ k.fixed.map Prod.fst ∧ "click" ∉ k.dynamic.map Prod.fst := by
  have hkeys : (Table.keys (Element.listeners { tag := "div" } false)).Nodup := List.nodup_nil
  obtain ⟨hmade, hsides⟩ := listeners_by_name hkeys namesakes Names.standard
  obtain ⟨c, hc⟩ := hmade (fun _ hlist => absurd hlist List.not_mem_nil) (by decide)
  have hrender : (eventsCode ((namesakes.foldl Element.addHandler { tag := "div" }).listeners false) false).toOption.map
      (Code.render Names.standard) = some "on:_d(\x7b\"click\":c\x7d,[evt,[a,b]])" := by
    decide +kernel
  rw [hc] at hrender
  obtain ⟨k, hk, hlisteners⟩ := hsides c hc
  obtain ⟨-, -, -, -, -, hevt⟩ := hlisteners { name := "evt", value := "a" } (.head _) (by decide)
  have hmem : { name := "click", value := "c" } ∈ namesakes := .tail _ (.tail _ (.head _))
  obtain ⟨-, -, -, -, -, hclick⟩ := hlisteners _ hmem (by decide)
  exact ⟨c, hc, Option.some.inj hrender, k, hk, hevt, hclick⟩

end Listener

end TemplateCompiler
