import ProtocolRobustness.Canonical.Injective

/-!
# Values in any iteration order

A map of the host lists its entries in some order, and so do the maps in it.  `WellFormed` asks only
that no map has a key twice, and `Same` is the host's `=`: vectors item by item, maps key by key.
Every well-formed value has a normal listing (`exists_listing`), which is the same value with the
same bytes; what is known of normal values is carried over along it.

* `Same.bytes`          the bytes of a value do not depend on how its maps are listed;
* `canonicalBytes_code`   the encoder is injective and prefix-free on well-formed values.
-/

namespace PRF
open Bytes

/-- a value in which no map has a key twice -/
inductive WellFormed : Value → Prop
  | null : WellFormed .null
  | bool (b : Bool) : WellFormed (.bool b)
  | int (n : ℤ) : WellFormed (.int n)
  | str (s : String) : WellFormed (.str s)
  | kw (k : Keyword) : WellFormed (.kw k)
  | vec {xs : List Value} (h : ∀ x ∈ xs, WellFormed x) : WellFormed (.vec xs)
  | map {es : List (Key × Value)} (keys : (es.map Prod.fst).Nodup)
      (h : ∀ e ∈ es, WellFormed e.2) : WellFormed (.map es)

/-- `(= a b)` -/
inductive Same : Value → Value → Prop
  | null : Same .null .null
  | bool (b : Bool) : Same (.bool b) (.bool b)
  | int (n : ℤ) : Same (.int n) (.int n)
  | str (s : String) : Same (.str s) (.str s)
  | kw (k : Keyword) : Same (.kw k) (.kw k)
  | vec {xs ys : List Value} (length : xs.length = ys.length)
      (h : ∀ p ∈ xs.zip ys, Same p.1 p.2) : Same (.vec xs) (.vec ys)
  | map {es fs : List (Key × Value)} (keys : (es.map Prod.fst).Perm (fs.map Prod.fst))
      (h : ∀ e ∈ es, ∀ f ∈ fs, e.1 = f.1 → Same e.2 f.2) : Same (.map es) (.map fs)

theorem Normal.wellFormed {v : Value} (h : Normal v) : WellFormed v := by
  induction h with
  | null => exact .null
  | bool b => exact .bool b
  | int n => exact .int n
  | str s => exact .str s
  | kw k => exact .kw k
  | vec _ ih => exact .vec ih
  | map keys _ ih =>
    refine .map (List.pairwise_map.mpr (keys.imp fun {e f} hlt heq => ?_)) ih
    rw [heq, (compareBytes_eq_iff _ _).mpr rfl] at hlt
    cases hlt

/-! ## the bytes of the same value -/

theorem itemBytes_congr {xs ys : List Value} (hlength : xs.length = ys.length)
    (h : ∀ p ∈ xs.zip ys, canonicalBytes p.1 = canonicalBytes p.2) : itemBytes xs = itemBytes ys := by
  induction xs generalizing ys with
  | nil => rw [List.length_eq_zero_iff.mp hlength.symm]
  | cons x xs ih =>
    cases ys with
    | nil => cases hlength
    | cons y ys =>
      rw [List.zip_cons_cons, List.forall_mem_cons] at h
      rw [itemBytes, itemBytes, h.1, ih (Nat.succ.inj hlength) h.2]

theorem entryBytes_perm {es fs : List (Key × Value)} (hes : (es.map Prod.fst).Nodup)
    (hfs : (fs.map Prod.fst).Nodup) (hkeys : (es.map Prod.fst).Perm (fs.map Prod.fst))
    (h : ∀ e ∈ es, ∀ f ∈ fs, e.1 = f.1 → canonicalBytes e.2 = canonicalBytes f.2) :
    (entryBytes es).Perm (entryBytes fs) := by
  have hnodup : ∀ {gs : List (Key × Value)}, (gs.map Prod.fst).Nodup → (entryBytes gs).Nodup := by
    intro gs hgs
    rw [entryBytes_eq]
    refine hgs.of_map.map_on fun e he f hf heq => ?_
    exact List.inj_on_of_nodup_map hgs he hf (keyBytes_injective (Prod.mk.inj heq).1)
  have hsub : ∀ {gs hs : List (Key × Value)}, (∀ k, k ∈ gs.map Prod.fst → k ∈ hs.map Prod.fst) →
      (∀ e ∈ gs, ∀ f ∈ hs, e.1 = f.1 → canonicalBytes e.2 = canonicalBytes f.2) →
      ∀ w ∈ entryBytes gs, w ∈ entryBytes hs := by
    intro gs hs hkeys hbytes w hw
    rw [entryBytes_eq] at hw ⊢
    obtain ⟨e, he, rfl⟩ := List.mem_map.mp hw
    obtain ⟨f, hf, hef⟩ := List.mem_map.mp (hkeys e.1 (List.mem_map_of_mem he))
    refine List.mem_map.mpr ⟨f, hf, ?_⟩
    rw [hef, hbytes e he f hf hef.symm]
  refine (List.perm_ext_iff_of_nodup (hnodup hes) (hnodup hfs)).mpr fun w => ⟨?_, ?_⟩
  · exact hsub (fun k => hkeys.mem_iff.mp) h w
  · exact hsub (fun k => hkeys.mem_iff.mpr) (fun f hf e he heq => (h e he f hf heq.symm).symm) w

/-- **The bytes of a value do not depend on how its maps are listed.** -/
theorem Same.bytes {a b : Value} (h : Same a b) (ha : WellFormed a) (hb : WellFormed b) :
    canonicalBytes a = canonicalBytes b := by
  induction h with
  | null | bool | int | str | kw => rfl
  | @vec xs ys hlength hitems ih =>
    cases ha with
    | vec hx =>
      cases hb with
      | vec hy =>
        have hbytes : itemBytes xs = itemBytes ys := by
          refine itemBytes_congr hlength fun p hp => ih p hp ?_ ?_
          · exact hx p.1 (List.of_mem_zip hp).1
          · exact hy p.2 (List.of_mem_zip hp).2
        rw [canonicalBytes, canonicalBytes, hlength, hbytes]
  | @map es fs hkeys hvalues ih =>
    cases ha with
    | map hes hx =>
      cases hb with
      | map hfs hy =>
        have hperm := entryBytes_perm hes hfs hkeys fun e he f hf heq =>
          ih e he f hf heq (hx e he) (hy f hf)
        have hsort : sortEntries (entryBytes es) = sortEntries (entryBytes fs) := by
          refine sort_unique Prod.fst hperm fun u hu v hv huv => ?_
          rw [entryBytes_eq] at hu hv
          obtain ⟨e, he, rfl⟩ := List.mem_map.mp hu
          obtain ⟨f, hf, rfl⟩ := List.mem_map.mp hv
          rw [List.inj_on_of_nodup_map hes he hf (keyBytes_injective huv)]
        have hlength : es.length = fs.length := by
          rw [← List.length_map Prod.fst, hkeys.length_eq, List.length_map]
        rw [canonicalBytes, canonicalBytes, hsort, hlength]

/-! ## parts of the same value -/

theorem Same.str_eq {a b : String} (h : Same (.str a) (.str b)) : a = b := by
  cases h
  rfl

theorem Same.int_eq {m n : ℤ} (h : Same (.int m) (.int n)) : m = n := by
  cases h
  rfl

/-- the same map listed under the same keys has the same values line by line -/
theorem Same.values {es fs : List (Key × Value)} (h : Same (.map es) (.map fs))
    (hkeys : es.map Prod.fst = fs.map Prod.fst) : List.Forall₂ (fun e f => Same e.2 f.2) es fs := by
  cases h with
  | map _ h =>
    clear * - h hkeys
    induction es generalizing fs with
    | nil =>
      cases fs with
      | nil => exact .nil
      | cons f fs => cases hkeys
    | cons e es ih =>
      cases fs with
      | nil => cases hkeys
      | cons f fs =>
        rw [List.map_cons, List.map_cons, List.cons.injEq] at hkeys
        refine .cons (h e (by simp) f (by simp) hkeys.1) (ih hkeys.2 fun e' he f' hf => ?_)
        exact h e' (by simp [he]) f' (by simp [hf])

/-! ## normal listings -/

/-- two values that are the same as a third one are the same -/
theorem Same.join (v : Value) : ∀ {a b : Value}, Same a v → Same b v → Same a b := by
  induction v using Value.induct with
  | null | bool | int | str | kw =>
    intro a b ha hb
    cases ha
    cases hb
    constructor
  | vec vs ih =>
    intro a b ha hb
    cases ha with
    | @vec xs _ hx hxs =>
      cases hb with
      | @vec ys _ hy hys =>
        refine .vec (hx.trans hy.symm) fun p hp => ?_
        obtain ⟨i, hi, rfl⟩ := List.mem_iff_getElem.mp hp
        rw [List.length_zip] at hi
        have hxi : i < xs.length := by omega
        have hyi : i < ys.length := by omega
        have hvi : i < vs.length := by omega
        rw [List.getElem_zip]
        refine ih vs[i] (List.getElem_mem hvi) ?_ ?_
        · exact hxs (xs[i], vs[i]) (List.mem_iff_getElem.mpr ⟨i, by simp; omega, by simp⟩)
        · exact hys (ys[i], vs[i]) (List.mem_iff_getElem.mpr ⟨i, by simp; omega, by simp⟩)
  | map gs ih =>
    intro a b ha hb
    cases ha with
    | @map es _ hes hesv =>
      cases hb with
      | @map fs _ hfs hfsv =>
        refine .map (hes.trans hfs.symm) fun e he f hf hef => ?_
        obtain ⟨g, hg, hkey⟩ := List.mem_map.mp (hes.mem_iff.mp (List.mem_map_of_mem he))
        exact ih g hg (hesv e he g hg hkey.symm) (hfsv f hf g hg (hef.symm.trans hkey.symm))

theorem exists_listing (v : Value) (hv : WellFormed v) : ∃ n, Normal n ∧ Same v n := by
  induction v using Value.induct with
  | null => exact ⟨_, .null, .null⟩
  | bool b => exact ⟨_, .bool b, .bool b⟩
  | int n => exact ⟨_, .int n, .int n⟩
  | str s => exact ⟨_, .str s, .str s⟩
  | kw k => exact ⟨_, .kw k, .kw k⟩
  | vec xs ih =>
    cases hv with
    | vec hx =>
      choose! listing hnormal hsame using fun x hmem => ih x hmem (hx x hmem)
      refine ⟨.vec (xs.map listing), .vec fun y hy => ?_, .vec (List.length_map listing).symm ?_⟩
      · obtain ⟨x, hmem, rfl⟩ := List.mem_map.mp hy
        exact hnormal x hmem
      · intro p hp
        rw [List.zip_map_right, List.mem_map] at hp
        obtain ⟨q, hq, rfl⟩ := hp
        obtain ⟨i, hi, rfl⟩ := List.mem_iff_getElem.mp hq
        simp only [List.getElem_zip, Prod.map_fst, Prod.map_snd, id]
        exact hsame _ (List.getElem_mem _)
  | map es ih =>
    cases hv with
    | map hkeys hx =>
      choose! listing hnormal hsame using fun e hmem => ih e hmem (hx e hmem)
      have hfst : (es.map fun e => (e.1, listing e)).map Prod.fst = es.map Prod.fst := by
        rw [List.map_map]
        rfl
      have hlisted : ∀ f ∈ es.map fun e => (e.1, listing e), Normal f.2 := by
        intro f hf
        obtain ⟨e, hmem, rfl⟩ := List.mem_map.mp hf
        exact hnormal e hmem
      obtain ⟨fs, hperm, hfs⟩ := exists_normal (hfst ▸ hkeys) hlisted
      refine ⟨.map fs, hfs, .map (hfst ▸ hperm.map Prod.fst) fun e he f hf hef => ?_⟩
      obtain ⟨e', he', rfl⟩ := List.mem_map.mp (hperm.mem_iff.mpr hf)
      rw [List.inj_on_of_nodup_map hkeys he he' hef]
      exact hsame e' he'

/-- **The encoder is injective and prefix-free on well-formed values**: only the same values have the
same bytes, the bytes of one are no proper prefix of those of another, and the entries of a map may
come in any order. -/
theorem canonicalBytes_code {a b : Value} (ha : WellFormed a) (hb : WellFormed b) :
    (canonicalBytes a = canonicalBytes b ↔ Same a b) ∧
    (canonicalBytes a <+: canonicalBytes b → canonicalBytes a = canonicalBytes b) ∧
    ∀ es fs, a = .map es → es.Perm fs → canonicalBytes (.map fs) = canonicalBytes a := by
  obtain ⟨n, hn, han⟩ := exists_listing a ha
  obtain ⟨m, hm, hbm⟩ := exists_listing b hb
  have ha' := han.bytes ha hn.wellFormed
  have hb' := hbm.bytes hb hm.wellFormed
  refine ⟨⟨fun heq => ?_, fun hsame => hsame.bytes ha hb⟩, fun hprefix => ?_, ?_⟩
  · rw [ha', hb'] at heq
    rw [← canonicalBytes_injective hn hm heq] at hbm
    exact Same.join n han hbm
  · obtain ⟨rest, hrest⟩ := hprefix
    rw [ha', hb'] at hrest ⊢
    have hempty := Code.Delimits.no_prefix (canonicalBytes_delimits n hn) hm hrest.symm
    rw [← hrest, hempty, List.append_nil]
  · rintro es fs rfl hperm
    cases ha with
    | map hkeys _ => exact (canonicalBytes_map_perm hperm hkeys).symm

/-- a map, and its entries in another order -/
theorem canonicalBytes_code_swap :
    canonicalBytes (.map [(.str "b", .vec [.null]), (.str "a", .int 1)])
      = canonicalBytes (.map [(.str "a", .int 1), (.str "b", .vec [.null])]) := by
  have hvec : WellFormed (.vec [.null]) := .vec (by simp [WellFormed.null])
  have hmap : WellFormed (.map [(.str "a", .int 1), (.str "b", .vec [.null])]) :=
    .map (by decide) (by simp [WellFormed.int, hvec])
  exact (canonicalBytes_code hmap hmap).2.2 _ _ rfl (List.Perm.swap _ _ _)

end PRF
