import LLMBenchLab.Constraints

/-!
# The policy store

`_ensure_default_policy_locked` and `apply_policy` keep a table of immutable
documents, one of them active. A document is found again by the hash of its
content, so the table never holds a content twice; `is_active` and
`activated_at` are the only columns that an existing row ever changes.

`Catalogue` is the invariant of the table and `Turn` says what a call that
returns has done to it. The rest of the system does not write policies: between
two calls anything else may happen to the store.
-/

namespace LLMBenchLab

open Relational Relational.Prog Governance

namespace Policies

variable {cfg : Config} {s s' : Store} {t t' : Table Policy} {a p q : Policy}

/-! ## The table -/

/-- The columns of a row that never change. -/
structure Same (p q : Policy) : Prop where
  id : q.id = p.id
  version : q.version = p.version
  policyHash : q.policyHash = p.policyHash
  limits : q.limits = p.limits

theorem Same.refl (p : Policy) : Same p p := ⟨rfl, rfl, rfl, rfl⟩

theorem Same.trans {c : Policy} (h : Same a p) (h' : Same p c) : Same a c :=
  ⟨h'.id.trans h.id, h'.version.trans h.version, h'.policyHash.trans h.policyHash,
    h'.limits.trans h.limits⟩

/-- No content and no version twice; the hash of a row is the hash of its
content. -/
structure Distinct (cfg : Config) (t : Table Policy) : Prop where
  hashed : ∀ p ∈ t.rows, p.policyHash = cfg.policyHash p.limits
  hashes : ∀ p ∈ t.rows, ∀ q ∈ t.rows, p.policyHash = q.policyHash → p = q
  versions : ∀ p ∈ t.rows, ∀ q ∈ t.rows, p.version = q.version → p = q

/-- `a` is the active row. -/
structure Single (a : Policy) (t : Table Policy) : Prop where
  mem : a ∈ t.rows
  active : a.isActive = true
  only : ∀ p ∈ t.rows, p.isActive = true → p = a

/-- The invariant of the table. -/
structure Catalogue (cfg : Config) (t : Table Policy) : Prop where
  distinct : Distinct cfg t
  single : t.rows = [] ∨ ∃ a, Single a t

theorem Catalogue.empty : Catalogue cfg .empty := by
  have hnone (p : Policy) : p ∉ (Table.empty : Table Policy).rows := List.not_mem_nil
  exact ⟨⟨fun p hp => absurd hp (hnone p), fun p hp => absurd hp (hnone p),
    fun p hp => absurd hp (hnone p)⟩, .inl rfl⟩

/-- Every row of `t` is still in `t'`. -/
def Kept (t t' : Table Policy) : Prop := ∀ p ∈ t.rows, ∃ q ∈ t'.rows, Same p q

theorem Kept.refl (t : Table Policy) : Kept t t := fun p hp => ⟨p, hp, .refl p⟩

theorem Kept.trans {t'' : Table Policy} (h : Kept t t') (h' : Kept t' t'') : Kept t t'' := by
  intro p hp
  obtain ⟨q, hq, hpq⟩ := h p hp
  obtain ⟨r, hr, hqr⟩ := h' q hq
  exact ⟨r, hr, hpq.trans hqr⟩

/-! ### Writing a row back -/

theorem mem_put_iff (hp : p ∈ t.rows) (h : Same p q) {x : Policy} :
    x ∈ (t.put q).rows ↔ x = q ∨ (x ∈ t.rows ∧ x ≠ p) := by
  constructor
  · intro hx
    rcases Table.mem_put hx with rfl | ⟨hx, hne⟩
    · exact .inl rfl
    · refine .inr ⟨hx, fun he => hne ?_⟩
      rw [he]
      exact h.id.symm
  · rintro (rfl | ⟨hx, hne⟩)
    · have hget : t.get? (key x) = some p := by
        rw [show key x = key p from h.id]
        exact Table.get?_of_mem hp
      exact Table.mem_of_get? (Table.get?_put_self hget)
    · have hkey : key x ≠ key q := fun he => hne (Table.eq_of_key hx hp (he.trans h.id))
      have hget := Table.get?_put_ne (t := t) hkey
      rw [Table.get?_of_mem hx] at hget
      exact Table.mem_of_get? hget

theorem Kept.put (hp : p ∈ t.rows) (h : Same p q) : Kept t (t.put q) := by
  intro x hx
  by_cases hxp : x = p
  · rw [hxp]
    exact ⟨q, (mem_put_iff hp h).mpr (.inl rfl), h⟩
  · exact ⟨x, (mem_put_iff hp h).mpr (.inr ⟨hx, hxp⟩), .refl x⟩

/-- Which row of the table before a row comes from. -/
theorem origin_put (hp : p ∈ t.rows) (h : Same p q) {x : Policy} (hx : x ∈ (t.put q).rows) :
    ∃ y ∈ t.rows, Same y x ∧ x = if y = p then q else y := by
  rcases (mem_put_iff hp h).mp hx with rfl | ⟨hx, hne⟩
  · exact ⟨p, hp, h, by rw [if_pos rfl]⟩
  · exact ⟨x, hx, .refl x, by rw [if_neg hne]⟩

theorem Distinct.put (hd : Distinct cfg t) (hp : p ∈ t.rows) (h : Same p q) :
    Distinct cfg (t.put q) where
  hashed x hx := by
    obtain ⟨y, hy, hxy, -⟩ := origin_put hp h hx
    rw [hxy.policyHash, hxy.limits]
    exact hd.hashed y hy
  hashes x hx x' hx' he := by
    obtain ⟨y, hy, hxy, hxe⟩ := origin_put hp h hx
    obtain ⟨y', hy', hxy', hxe'⟩ := origin_put hp h hx'
    have hyy := hd.hashes y hy y' hy' (by rw [← hxy.policyHash, ← hxy'.policyHash, he])
    rw [hxe, hxe', hyy]
  versions x hx x' hx' he := by
    obtain ⟨y, hy, hxy, hxe⟩ := origin_put hp h hx
    obtain ⟨y', hy', hxy', hxe'⟩ := origin_put hp h hx'
    have hyy := hd.versions y hy y' hy' (by rw [← hxy.version, ← hxy'.version, he])
    rw [hxe, hxe', hyy]

/-- A new content under a new version. -/
theorem Distinct.insert (hd : Distinct cfg t) (hnone : t.get? (key q) = none)
    (hq : q.policyHash = cfg.policyHash q.limits) (hhash : ∀ p ∈ t.rows, p.policyHash ≠ q.policyHash)
    (hversion : ∀ p ∈ t.rows, p.version < q.version) : Distinct cfg (t.insert q) := by
  have hmem {x : Policy} (hx : x ∈ (t.insert q).rows) : x ∈ t.rows ∨ x = q :=
    (Table.mem_insert.mp hx).imp_right And.right
  refine ⟨fun x hx => ?_, fun x hx x' hx' he => ?_, fun x hx x' hx' he => ?_⟩
  · rcases hmem hx with hx | rfl
    · exact hd.hashed x hx
    · exact hq
  · rcases hmem hx with h | rfl <;> rcases hmem hx' with h' | rfl
    · exact hd.hashes x h x' h' he
    · exact absurd he (hhash x h)
    · exact absurd he.symm (hhash x' h')
    · rfl
  · rcases hmem hx with h | rfl <;> rcases hmem hx' with h' | rfl
    · exact hd.versions x h x' h' he
    · exact absurd he (hversion x h).ne
    · exact absurd he.symm (hversion x' h').ne
    · rfl

theorem Kept.insert (t : Table Policy) (q : Policy) : Kept t (t.insert q) :=
  fun p hp => ⟨p, Table.mem_insert.mpr (.inl hp), .refl p⟩

/-! ### Turns -/

/-- The row taken out of force. -/
def retired (p : Policy) : Policy := { p with isActive := false }

/-- The row put into force. -/
def activated (p : Policy) (now : Time) : Policy := { p with isActive := true, activatedAt := some now }

theorem same_retired (p : Policy) : Same p (retired p) := ⟨rfl, rfl, rfl, rfl⟩

theorem same_activated (p : Policy) (now : Time) : Same p (activated p now) := ⟨rfl, rfl, rfl, rfl⟩

/-- With the active row retired nothing is in force. -/
theorem Single.retired (h : Single a t) : ∀ x ∈ (t.put (retired a)).rows, x.isActive = false := by
  intro x hx
  rcases (mem_put_iff h.mem (same_retired a)).mp hx with rfl | ⟨hx, hne⟩
  · rfl
  · by_contra hact
    exact hne (h.only x hx (by simpa using hact))

/-- The row `b` takes over from `a`. -/
theorem Single.takeOver (h : Single a t) {b : Policy} (hb : b ∈ t.rows) (hne : b ≠ a) (now : Time) :
    b ∈ (t.put (Policies.retired a)).rows ∧
      Single (activated b now) ((t.put (Policies.retired a)).put (activated b now)) := by
  have hb' : b ∈ (t.put (Policies.retired a)).rows :=
    (mem_put_iff h.mem (same_retired a)).mpr (.inr ⟨hb, hne⟩)
  refine ⟨hb', (mem_put_iff hb' (same_activated b now)).mpr (.inl rfl), rfl, fun x hx hact => ?_⟩
  rcases (mem_put_iff hb' (same_activated b now)).mp hx with hx | ⟨hx, -⟩
  · exact hx
  · rw [h.retired x hx] at hact
    cases hact

/-- A new row takes over. -/
theorem single_insert (hidle : ∀ x ∈ t.rows, x.isActive = false) (hnone : t.get? (key q) = none)
    (hq : q.isActive = true) : Single q (t.insert q) := by
  refine ⟨Table.mem_insert.mpr (.inr ⟨hnone, rfl⟩), hq, fun x hx hact => ?_⟩
  rcases Table.mem_insert.mp hx with hx | ⟨-, hx⟩
  · rw [hidle x hx] at hact
    cases hact
  · exact hx

/-- What a call that returns `p` does to the table. -/
inductive Turn (cfg : Config) (now : Time) : Table Policy → Policy → Table Policy → Prop where
  /-- nothing: `p` is active -/
  | idle {t : Table Policy} {p : Policy} : Single p t → Turn cfg now t p t
  /-- the default policy, into an empty table -/
  | seeded {t : Table Policy} : t.rows = [] →
    Turn cfg now t (defaultPolicy cfg now) (t.insert (defaultPolicy cfg now))
  /-- an earlier row comes into force again -/
  | resumed {t : Table Policy} {a b : Policy} : Single a t → b ∈ t.rows → b ≠ a →
    Turn cfg now t (activated b now) ((t.put (retired a)).put (activated b now))
  /-- a content that was never there -/
  | created {t : Table Policy} {a q : Policy} : Single a t → (t.put (retired a)).get? (key q) = none → q.isActive = true →
    q.policyHash = cfg.policyHash q.limits → (∀ p ∈ t.rows, p.policyHash ≠ q.policyHash) →
    (∀ p ∈ t.rows, p.version < q.version) → Turn cfg now t q ((t.put (retired a)).insert q)

theorem Turn.step {now : Time} (h : Turn cfg now t p t') (hd : Distinct cfg t) :
    Distinct cfg t' ∧ Single p t' ∧ Kept t t' := by
  cases h with
  | idle hs => exact ⟨hd, hs, .refl t⟩
  | seeded hempty =>
    have hnone : t.get? (key (defaultPolicy cfg now)) = none :=
      Table.get?_eq_none.mpr fun r hr => by rw [hempty] at hr; cases hr
    have hno (x : Policy) : x ∉ t.rows := by rw [hempty]; exact List.not_mem_nil
    exact ⟨hd.insert hnone rfl (fun x hx => absurd hx (hno x)) fun x hx => absurd hx (hno x),
      single_insert (fun x hx => absurd hx (hno x)) hnone rfl, .insert t _⟩
  | @resumed a b hs hb hne =>
    obtain ⟨hb', hs'⟩ := hs.takeOver hb hne now
    exact ⟨(hd.put hs.mem (same_retired a)).put hb' (same_activated b now), hs',
      (Kept.put hs.mem (same_retired a)).trans (Kept.put hb' (same_activated b now))⟩
  | @created a _ hs hnone hact hhash hfresh hversion =>
    refine ⟨(hd.put hs.mem (same_retired a)).insert hnone hhash (fun x hx => ?_) fun x hx => ?_,
      single_insert hs.retired hnone hact,
      (Kept.put hs.mem (same_retired a)).trans (.insert _ _)⟩
    · obtain ⟨y, hy, hxy, -⟩ := origin_put hs.mem (same_retired a) hx
      rw [hxy.policyHash]
      exact hfresh y hy
    · obtain ⟨y, hy, hxy, -⟩ := origin_put hs.mem (same_retired a) hx
      rw [hxy.version]
      exact hversion y hy

/-! ## The calls -/

theorem Single.activeRows (h : Single a s.policies) : activeRows s = [a] := by
  have hnodup : s.policies.rows.Nodup := List.Nodup.of_map _ s.policies.nodup
  have hfilter : s.policies.rows.filter Policy.isActive = [a] := by
    refine List.perm_singleton.mp ((List.perm_ext_iff_of_nodup (hnodup.filter _)
      (List.nodup_singleton a)).mpr fun x => ?_)
    rw [List.mem_filter, List.mem_singleton]
    exact ⟨fun hx => h.only x hx.1 hx.2, fun hx => hx ▸ ⟨h.mem, h.active⟩⟩
  rw [Governance.activeRows, hfilter]
  rfl

theorem activeRows_nil (h : s.policies.rows = []) : activeRows s = [] := by
  rw [Governance.activeRows, h]
  rfl

/-- The two calls on the policy table. -/
inductive Call : Type where
  | bootstrap (now : Time)
  | apply (values : PolicyValues) (freshId uuid : ℕ) (now : Time)

/-- The transaction of a call: `ensure_default_policy` or `apply_policy`. -/
def Call.tx (cfg : Config) : Call → Tx Policy
  | bootstrap now => ensureDefaultPolicyLocked cfg now
  | apply values freshId uuid now => applyPolicy cfg values freshId uuid now

/-- The instant of a call. -/
def Call.now : Call → Time
  | bootstrap now => now
  | apply _ _ _ now => now

theorem ensureDefault_turn {now : Time} (hc : Catalogue cfg s.policies)
    (h : exec schema (ensureDefaultPolicyLocked cfg now) s = .ok (p, s')) :
    Turn cfg now s.policies p s'.policies ∧ (s.policies.rows ≠ [] → s' = s) := by
  unfold ensureDefaultPolicyLocked lockActiveRows Prog.forUpdate at h
  simp only [bind_eq, Prog.bind, exec_lock] at h
  rcases hc.single with hempty | ⟨a, ha⟩
  · rw [activeRows_nil hempty] at h
    have hseed : Turn cfg now s.policies (defaultPolicy cfg now)
        (s.policies.insert (defaultPolicy cfg now)) := .seeded hempty
    have hsingle := (hseed.step hc.distinct).2.1
    have hrows : activeRows { s with policies := s.policies.insert (defaultPolicy cfg now) } =
        [defaultPolicy cfg now] := Single.activeRows hsingle
    have h := exec_flush_bind h
    rw [exec_lock, hrows] at h
    obtain ⟨-, h⟩ := exec_ensure_bind h
    obtain ⟨t, -, h⟩ := exec_audit_bind h
    obtain ⟨rfl, rfl⟩ := exec_pure_ok h
    exact ⟨hseed, fun hne => absurd hempty hne⟩
  · rw [ha.activeRows] at h
    obtain ⟨-, h⟩ := exec_ensure_bind h
    obtain ⟨rfl, rfl⟩ := exec_pure_ok h
    exact ⟨.idle ha, fun _ => rfl⟩

theorem le_maxVersion (hp : p ∈ s.policies.rows) : p.version ≤ maxVersion s := by
  have hmax : ∀ l : List ℕ, ∀ n ∈ l, n ≤ l.foldr max 0 := by
    intro l
    induction l with
    | nil => exact fun n hn => absurd hn List.not_mem_nil
    | cons m l ih =>
      intro n hn
      rcases List.mem_cons.mp hn with rfl | hn
      · exact Nat.le_max_left _ _
      · exact (ih n hn).trans (Nat.le_max_right _ _)
  exact hmax _ _ (List.mem_map_of_mem hp)

/-- `apply_policy`, from the state that `_ensure_default_policy_locked` leaves:
the returned row has the hash of the normalized content. -/
theorem applyPolicy_turn {values : PolicyValues} {freshId uuid : ℕ} {now : Time}
    (hc : Catalogue cfg s.policies)
    (h : exec schema (applyPolicy cfg values freshId uuid now) s = .ok (p, s')) :
    ∃ limits current t₁, normalizePolicyValues values = .ok limits ∧
      p.policyHash = cfg.policyHash limits ∧ Turn cfg now s.policies current t₁ ∧
      Turn cfg now t₁ p s'.policies := by
  obtain ⟨limits, hl, h⟩ := exec_ofExcept_bind h
  obtain ⟨_, s₁, h₁, h⟩ := exec_bind_eq_ok h
  have hp₁ := ((SameControl.lockScopes _).exec SameControl.refl SameControl.trans h₁).policies
  obtain ⟨current, s₂, h₂, h⟩ := exec_bind_eq_ok h
  obtain ⟨hturn, -⟩ := ensureDefault_turn (by rw [hp₁]; exact hc) h₂
  rw [hp₁] at hturn
  obtain ⟨hd, hs, -⟩ := hturn.step hc.distinct
  refine ⟨limits, current, s₂.policies, hl, ?_⟩
  split at h
  · next hsame =>
    obtain ⟨rfl, rfl⟩ := exec_pure_ok h
    exact ⟨hsame, hturn, .idle hs⟩
  next hdiff =>
  rw [bind_eq, Prog.forUpdate, Prog.bind, exec_lock] at h
  simp only [Prog.bind] at h
  split at h
  · next target hfound =>
    have hmem := List.mem_of_find?_eq_some hfound
    have hhash : target.policyHash = cfg.policyHash limits := by
      simpa using List.find?_some hfound
    obtain ⟨-, h⟩ := exec_ensure_bind h
    have h := exec_flush_bind (exec_flush_bind h)
    obtain ⟨t, -, h⟩ := exec_audit_bind h
    obtain ⟨rfl, rfl⟩ := exec_pure_ok h
    refine ⟨hhash, hturn, .resumed hs hmem fun he => hdiff ?_⟩
    rw [← he]
    exact hhash
  · next hfound =>
    have h := exec_flush_bind h
    simp only [Prog.read, bind_eq, Prog.bind, exec_query] at h
    obtain ⟨hnone, h⟩ := exec_ensure_bind h
    have h := exec_flush_bind h
    obtain ⟨t, -, h⟩ := exec_audit_bind h
    obtain ⟨rfl, rfl⟩ := exec_pure_ok h
    refine ⟨rfl, hturn, .created hs (Option.isNone_iff_eq_none.mp hnone) rfl rfl (fun x hx he => ?_) fun x hx => ?_⟩
    · exact absurd (List.find?_eq_none.mp hfound x hx) (by simpa using he)
    · obtain ⟨y, hy, hxy⟩ := Kept.put hs.mem (same_retired current) x hx
      have hle := le_maxVersion (s := { s₂ with policies := s₂.policies.put (retired current) }) hy
      rw [hxy.version] at hle
      exact Nat.lt_succ_of_le hle

/-! ## Runs of calls -/

/-- One step of the system: a call, committed or rolled back, or anything that
leaves the policies as they are. -/
def Step (cfg : Config) (s s' : Store) : Prop :=
  (∃ c : Call, s' = after schema (c.tx cfg) s) ∨ (s'.policies = s.policies ∧ s'.ok = true)

/-- What holds between the steps. -/
structure Inv (cfg : Config) (s : Store) : Prop where
  catalogue : Catalogue cfg s.policies
  ok : s.ok = true

/-- A call that returns leaves its row in force. -/
theorem Call.returns {c : Call} (hc : Catalogue cfg s.policies)
    (h : exec schema (c.tx cfg) s = .ok (p, s')) :
    Catalogue cfg s'.policies ∧ Single p s'.policies ∧ Kept s.policies s'.policies := by
  cases c with
  | bootstrap now =>
    obtain ⟨hd, hs, hk⟩ := (ensureDefault_turn hc h).1.step hc.distinct
    exact ⟨⟨hd, .inr ⟨p, hs⟩⟩, hs, hk⟩
  | apply values freshId uuid now =>
    obtain ⟨limits, current, t₁, -, -, h₁, h₂⟩ := applyPolicy_turn hc h
    obtain ⟨hd₁, -, hk₁⟩ := h₁.step hc.distinct
    obtain ⟨hd, hs, hk⟩ := h₂.step hd₁
    exact ⟨⟨hd, .inr ⟨p, hs⟩⟩, hs, hk₁.trans hk⟩

theorem Inv.step (hi : Inv cfg s) (h : Step cfg s s') : Inv cfg s' ∧ Kept s.policies s'.policies := by
  rcases h with ⟨c, rfl⟩ | ⟨hp, hok⟩
  · refine ⟨⟨?_, ok_after (σ := schema) hi.ok⟩, ?_⟩ <;>
      rcases after_cases schema (c.tx cfg) s with hx | ⟨p, s', hx, hx'⟩
    · rw [hx]
      exact hi.catalogue
    · rw [hx']
      exact (Call.returns hi.catalogue hx).1
    · rw [hx]
      exact .refl _
    · rw [hx']
      exact (Call.returns hi.catalogue hx).2.2
  · exact ⟨⟨by rw [hp]; exact hi.catalogue, hok⟩, by rw [hp]; exact .refl _⟩

theorem Single.iff (h : Single a t) (x : Policy) :
    (x ∈ t.rows ∧ x.isActive = true) ↔ x = a :=
  ⟨fun hx => h.only x hx.1 hx.2, fun hx => hx ▸ ⟨h.mem, h.active⟩⟩

theorem Catalogue.unique (hc : Catalogue cfg t) :
    t.rows = [] ∨ ∃! a, a ∈ t.rows ∧ a.isActive = true := by
  rcases hc.single with hempty | ⟨a, ha⟩
  · exact .inl hempty
  · exact .inr ⟨a, ⟨ha.mem, ha.active⟩, fun x hx => (ha.iff x).mp hx⟩

theorem Distinct.content (hd : Distinct cfg t) (hp : p ∈ t.rows) (hq : q ∈ t.rows)
    (h : p.limits = q.limits) : p = q := by
  apply hd.hashes p hp q hq
  rw [hd.hashed p hp, hd.hashed q hq, h]

theorem Kept.get? (hk : Kept t t') {id : PolicyId} (hp : t.get? id = some p) :
    ∃ q, t'.get? id = some q ∧ Same p q := by
  obtain ⟨q, hq, hpq⟩ := hk p (Table.mem_of_get? hp)
  have hkey : key q = id := hpq.id.trans (Table.key_of_get? hp)
  exact ⟨q, by rw [← hkey]; exact Table.get?_of_mem hq, hpq⟩

end Policies

open Policies

end LLMBenchLab
