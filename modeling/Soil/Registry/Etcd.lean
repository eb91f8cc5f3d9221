import Mathlib.Data.List.Perm.Basic
import Mathlib.Data.List.Infix
import Soil.Basic
import Soil.Bytes

/-!
# Service discovery through etcd

`micro/registry/etcd` keeps one key per service instance, `/micro/<name>/<address>`,
and looks a service up by the string `/micro/<name>`.  The first half follows the
source: the key-value store as far as the registry uses it, the keys, and the three
operations.  Over it, `Directory` says what a registry is for: the instance last
registered under each pair of a name and an address, until it is taken out.
-/

namespace Soil.Registry

open List AList

structure ServiceInstance where
  name : Text
  address : Text
  weight : UInt32
  group : Text
  deriving DecidableEq, Inhabited

structure Json (D : Type) where
  marshal : ServiceInstance → Except String D
  unmarshal : D → Except String ServiceInstance
  undone : ∀ si, ∃ data, marshal si = .ok data ∧ unmarshal data = .ok si

/-! ## etcd -/

abbrev Store (D : Type) := AList fun _ : Text => D

inductive OpOption
  | withPrefix
  deriving DecidableEq

def OpOption.Selects (opts : List OpOption) (key k : Text) : Prop :=
  if OpOption.withPrefix ∈ opts then key <+: k else k = key

instance (opts : List OpOption) (key k : Text) : Decidable (OpOption.Selects opts key k) :=
  inferInstanceAs (Decidable (if OpOption.withPrefix ∈ opts then key <+: k else k = key))

def Store.get {D : Type} (kvs : Store D) (key : Text) (opts : List OpOption) :
    List (Sigma fun _ : Text => D) :=
  kvs.entries.filter fun pair => OpOption.Selects opts key pair.1

/-! ## The registry -/

def instanceKey (si : ServiceInstance) : Text :=
  utf8 "/micro/" ++ si.name ++ utf8 "/" ++ si.address

def serviceKey (sn : Text) : Text := utf8 "/micro/" ++ sn

section

variable {D : Type} (json : Json D)

def registry (kvs : Store D) (si : ServiceInstance) : Option String × Store D :=
  match json.marshal si with
  | .error err => (some err, kvs)
  | .ok data => (none, kvs.insert (instanceKey si) data)

def unRegistry (kvs : Store D) (si : ServiceInstance) : Store D := kvs.erase (instanceKey si)

def listServices (kvs : Store D) (serviceName : Text) (opts : List OpOption) :
    Except String (List ServiceInstance) :=
  (kvs.get (serviceKey serviceName) opts).mapM fun pair => json.unmarshal pair.2

inductive Call
  | registry (si : ServiceInstance)
  | unRegistry (si : ServiceInstance)

def Call.subject : Call → ServiceInstance
  | .registry si => si
  | .unRegistry si => si

def Call.run (kvs : Store D) : Call → Store D
  | .registry si => (Registry.registry json kvs si).2
  | .unRegistry si => Registry.unRegistry kvs si

def storeAfter (history : List Call) : Store D := history.foldl (Call.run json) ∅

end

/-! ## What the registry is for -/

abbrev Directory := AList fun _ : Text × Text => ServiceInstance

def ServiceInstance.ident (si : ServiceInstance) : Text × Text := (si.name, si.address)

def Call.apply (dir : Directory) : Call → Directory
  | .registry si => dir.insert si.ident si
  | .unRegistry si => dir.erase si.ident

def directoryAfter (history : List Call) : Directory := history.foldl Call.apply ∅

def Directory.instances (dir : Directory) (n : Text) : List ServiceInstance :=
  (dir.entries.map Sigma.snd).filter fun si => si.name = n

/-! ## Keys -/

theorem instanceKey_eq (si : ServiceInstance) :
    instanceKey si = serviceKey si.name ++ (utf8 "/" ++ si.address) := by
  simp [instanceKey, serviceKey]

theorem serviceKey_isPrefix (si : ServiceInstance) : serviceKey si.name <+: instanceKey si := by
  rw [instanceKey_eq]
  exact prefix_append _ _

variable {si other : ServiceInstance}

theorem instanceKey_congr (same : si.ident = other.ident) : instanceKey si = instanceKey other := by
  rw [ServiceInstance.ident, ServiceInstance.ident, Prod.mk.injEq] at same
  rw [instanceKey, instanceKey, same.1, same.2]

theorem ident_eq_of_instanceKey (service : si.name = other.name)
    (same : instanceKey si = instanceKey other) : si.ident = other.ident := by
  rw [instanceKey_eq, instanceKey_eq, service] at same
  have rest := append_cancel_left (append_cancel_left same)
  rw [ServiceInstance.ident, ServiceInstance.ident, service, rest]

def Separate (S : Set ServiceInstance) (n : Text) : Prop :=
  ∀ si ∈ S, serviceKey n <+: instanceKey si → si.name = n

/-! ## The store against the directory -/

section

variable {D : Type} {json : Json D} {n : Text} {kvs : Store D} {dir : Directory}

structure Agree (json : Json D) (n : Text) (kvs : Store D) (dir : Directory) : Prop where
  sound : ∀ k data, kvs.lookup k = some data → serviceKey n <+: k →
    ∃ si, dir.lookup si.ident = some si ∧ si.name = n ∧ k = instanceKey si ∧
      json.unmarshal data = .ok si
  filed : ∀ p si, dir.lookup p = some si → p = si.ident
  complete : ∀ p si, dir.lookup p = some si → si.name = n →
    ∃ data, kvs.lookup (instanceKey si) = some data ∧ json.unmarshal data = .ok si

theorem Agree.empty : Agree json n (∅ : Store D) ∅ where
  sound := by
    intro k data found
    simp at found
  filed := by
    intro p si found
    simp at found
  complete := by
    intro p si found
    simp at found

theorem ident_eq_of_separate
    (alone : serviceKey n <+: instanceKey other → other.name = n) (service : si.name = n)
    (same : instanceKey si = instanceKey other) : si.ident = other.ident := by
  have own : other.name = n := by
    apply alone
    rw [← same, ← service]
    exact serviceKey_isPrefix si
  exact ident_eq_of_instanceKey (service.trans own.symm) same

section

variable (agree : Agree json n kvs dir)
include agree

section

variable (alone : serviceKey n <+: instanceKey si → si.name = n)
include alone

/-- What a call changes is under the key and the identity of one instance. -/
theorem Agree.update {kvs' : Store D} {dir' : Directory}
    (keys : ∀ k ≠ instanceKey si, kvs'.lookup k = kvs.lookup k)
    (idents : ∀ p ≠ si.ident, dir'.lookup p = dir.lookup p)
    (here : ∀ data, kvs'.lookup (instanceKey si) = some data →
      dir'.lookup si.ident = some si ∧ json.unmarshal data = .ok si)
    (there : ∀ old, dir'.lookup si.ident = some old →
      old = si ∧ ∃ data, kvs'.lookup (instanceKey si) = some data ∧ json.unmarshal data = .ok si) :
    Agree json n kvs' dir' where
  sound := by
    intro k found at_ starts
    by_cases same : k = instanceKey si
    · subst same
      obtain ⟨filed, decodes⟩ := here found at_
      exact ⟨si, filed, alone starts, rfl, decodes⟩
    rw [keys k same] at at_
    obtain ⟨old, there, service, key, decoded⟩ := agree.sound k found at_ starts
    have different : old.ident ≠ si.ident := by
      intro equal
      exact same (key.trans (instanceKey_congr equal))
    exact ⟨old, (idents _ different).trans there, service, key, decoded⟩
  filed := by
    intro p old filed
    by_cases same : p = si.ident
    · subst same
      rw [(there old filed).1]
    · rw [idents p same] at filed
      exact agree.filed p old filed
  complete := by
    intro p old filed service
    by_cases same : p = si.ident
    · subst same
      obtain ⟨rfl, stored⟩ := there old filed
      exact stored
    rw [idents p same] at filed
    obtain ⟨value, at_, decoded⟩ := agree.complete p old filed service
    have different : instanceKey old ≠ instanceKey si := by
      intro equal
      apply same
      rw [agree.filed p old filed]
      exact ident_eq_of_separate alone service equal
    exact ⟨value, (keys _ different).trans at_, decoded⟩

theorem Agree.insert {data : D} (decodes : json.unmarshal data = .ok si) :
    Agree json n (kvs.insert (instanceKey si) data) (dir.insert si.ident si) := by
  apply agree.update alone (fun _ => lookup_insert_ne) (fun _ => lookup_insert_ne)
  · simp [decodes]
  · simp [decodes]

theorem Agree.erase : Agree json n (kvs.erase (instanceKey si)) (dir.erase si.ident) := by
  apply agree.update alone (fun _ => lookup_erase_ne) (fun _ => lookup_erase_ne)
  · simp
  · simp

end

theorem Agree.call (call : Call)
    (alone : serviceKey n <+: instanceKey call.subject → call.subject.name = n) :
    Agree json n (call.run json kvs) (call.apply dir) := by
  cases call with
  | registry si =>
    obtain ⟨data, encoded, decoded⟩ := json.undone si
    have stored : (registry json kvs si).2 = kvs.insert (instanceKey si) data := by
      rw [registry, encoded]
    rw [Call.run, stored]
    exact agree.insert alone decoded
  | unRegistry => exact agree.erase alone

theorem Agree.run {S : Set ServiceInstance} (separate : Separate S n)
    {history : List Call} (within : ∀ call ∈ history, call.subject ∈ S) :
    Agree json n (history.foldl (Call.run json) kvs) (history.foldl Call.apply dir) := by
  induction history generalizing kvs dir with
  | nil => exact agree
  | cons call rest ih =>
    rw [forall_mem_cons] at within
    exact ih (agree.call call (separate _ within.1)) within.2

end

end

/-! ## Lookups -/

section

variable {D : Type} {json : Json D} {n : Text} {kvs : Store D} {dir : Directory}

theorem mem_get_withPrefix {pair : Sigma fun _ : Text => D} {key : Text} :
    pair ∈ kvs.get key [.withPrefix] ↔ kvs.lookup pair.1 = some pair.2 ∧ key <+: pair.1 := by
  rw [Store.get, mem_filter, mem_lookup_iff.symm]
  simp [OpOption.Selects]

theorem nodup_get (key : Text) (opts : List OpOption) : (kvs.get key opts).Nodup :=
  (List.NodupKeys.nodup kvs.nodupKeys).filter _

theorem Agree.nodup_instances (agree : Agree json n kvs dir) : (dir.instances n).Nodup := by
  apply List.Nodup.filter
  apply (List.NodupKeys.nodup dir.nodupKeys).map_on
  rintro ⟨p, si⟩ inside ⟨q, other⟩ inside' same
  have first := agree.filed p si (mem_lookup_iff.mpr inside)
  have second := agree.filed q other (mem_lookup_iff.mpr inside')
  obtain rfl : si = other := same
  rw [first, second]

theorem mem_instances (agree : Agree json n kvs dir) :
    si ∈ dir.instances n ↔ dir.lookup si.ident = some si ∧ si.name = n := by
  rw [Directory.instances, mem_filter, mem_map]
  constructor
  · rintro ⟨⟨⟨p, found⟩, there, rfl⟩, service⟩
    have at_ := mem_lookup_iff.mpr there
    have own := agree.filed p found at_
    subst own
    exact ⟨at_, by simpa using service⟩
  · rintro ⟨at_, service⟩
    exact ⟨⟨⟨si.ident, si⟩, mem_lookup_iff.mp at_, rfl⟩, by simpa using service⟩

theorem Agree.listServices (agree : Agree json n kvs dir) :
    ∃ found, Registry.listServices json kvs n [.withPrefix] = .ok found ∧
      found.Perm (dir.instances n) := by
  have decoded : ∀ pair ∈ kvs.get (serviceKey n) [.withPrefix],
      ∃ si, dir.lookup si.ident = some si ∧ si.name = n ∧ pair.1 = instanceKey si ∧
        json.unmarshal pair.2 = .ok si := by
    intro pair inside
    obtain ⟨found, starts⟩ := mem_get_withPrefix.mp inside
    exact agree.sound pair.1 pair.2 found starts
  choose! read there service key decodes using decoded
  refine ⟨_, mapM_eq_ok_map decodes, ?_⟩
  -- the key of a pair is that of the instance read from it, so no instance is read twice
  have distinct : ((kvs.get (serviceKey n) [.withPrefix]).map read).Nodup := by
    apply (nodup_get _ _).map_on
    rintro ⟨k, data⟩ inside ⟨k', data'⟩ inside' same
    obtain rfl : k = k' := by
      have first := key _ inside
      have second := key _ inside'
      rw [same] at first
      exact first.trans second.symm
    have first := (mem_get_withPrefix.mp inside).1
    have second := (mem_get_withPrefix.mp inside').1
    rw [first, Option.some.injEq] at second
    exact Sigma.ext rfl (heq_of_eq second)
  apply (perm_ext_iff_of_nodup distinct (agree.nodup_instances)).mpr
  intro si
  rw [mem_instances agree, mem_map]
  constructor
  · rintro ⟨pair, inside, rfl⟩
    exact ⟨there pair inside, service pair inside⟩
  rintro ⟨at_, own⟩
  obtain ⟨data, stored, reads⟩ := agree.complete _ si at_ own
  have inside : ⟨instanceKey si, data⟩ ∈ kvs.get (serviceKey n) [.withPrefix] := by
    apply mem_get_withPrefix.mpr
    rw [← own]
    exact ⟨stored, serviceKey_isPrefix si⟩
  have again := decodes _ inside
  rw [reads, Except.ok.injEq] at again
  exact ⟨_, inside, again.symm⟩

end

/-! ## Exactness -/

section

variable {D : Type} (json : Json D)

def Exact (history : List Call) (n : Text) : Prop :=
  ∃ found, listServices json (storeAfter json history) n [.withPrefix] = .ok found ∧
    found.Perm ((directoryAfter history).instances n)

def Unmoved (history : List Call) (call : Call) (n : Text) : Prop :=
  call.subject.name ≠ n →
    listServices json (storeAfter json (history ++ [call])) n [.withPrefix] =
      listServices json (storeAfter json history) n [.withPrefix]

variable {json} {S : Set ServiceInstance} {n : Text}

theorem exact_of_separate (separate : Separate S n) {history : List Call}
    (within : ∀ call ∈ history, call.subject ∈ S) : Exact json history n :=
  (Agree.empty.run separate within).listServices

theorem filter_kerase {α : Type} [DecidableEq α] {β : α → Type} {p : Sigma β → Bool} {k : α}
    (aside : ∀ v, p ⟨k, v⟩ = false) (xs : List (Sigma β)) :
    (xs.kerase k).filter p = xs.filter p := by
  induction xs with
  | nil => rfl
  | cons x xs ih =>
    obtain ⟨k', v⟩ := x
    by_cases same : k = k'
    · subst same
      rw [kerase_cons_eq (s := ⟨k, v⟩) rfl, filter_cons_of_neg (by simp [aside])]
    · rw [kerase_cons_ne same, filter_cons, filter_cons, ih]

variable {call : Call}

theorem Call.get_run {kvs : Store D} {key : Text} (aside : ¬ key <+: instanceKey call.subject) :
    (call.run json kvs).get key [.withPrefix] = kvs.get key [.withPrefix] := by
  have unselected : ∀ data : D, (decide (OpOption.Selects [.withPrefix] key
      (⟨instanceKey call.subject, data⟩ : Sigma fun _ : Text => D).1)) = false := by
    intro data
    simpa [OpOption.Selects] using aside
  cases call with
  | registry si =>
    rw [Call.run, Registry.registry]
    cases json.marshal si with
    | error => rfl
    | ok data =>
      refine (filter_cons_of_neg ?_).trans (filter_kerase unselected _)
      exact ne_true_of_eq_false (unselected data)
  | unRegistry => exact filter_kerase unselected _

theorem unmoved_of_separate (separate : Separate S n) (history : List Call)
    (within : call.subject ∈ S) : Unmoved json history call n := by
  intro other
  have aside : ¬ serviceKey n <+: instanceKey call.subject := by
    intro starts
    exact other (separate _ within starts)
  rw [storeAfter, foldl_append, foldl_cons, foldl_nil, listServices, Call.get_run aside]
  rfl

theorem not_exact_registry (json : Json D)
    (starts : serviceKey n <+: instanceKey si) (other : si.name ≠ n) : ¬ Exact json [.registry si]
      n := by
  rintro ⟨found, listed, exact_⟩
  obtain ⟨data, encoded, decoded⟩ := json.undone si
  have stored : storeAfter json [.registry si] = insert (instanceKey si) data ∅ := by
    change (registry json ∅ si).2 = _
    rw [registry, encoded]
  have answer : listServices json (storeAfter json [.registry si]) n [.withPrefix] = .ok [si] := by
    rw [stored, listServices, Store.get, entries_insert_of_notMem (notMem_empty _),
      filter_cons_of_pos (by simpa [OpOption.Selects] using starts)]
    change (json.unmarshal data >>= fun x => _) = _
    rw [decoded]
    rfl
  have none_registered : (directoryAfter [.registry si]).instances n = [] := by
    change [si].filter _ = []
    simp [other]
  rw [answer, Except.ok.injEq] at listed
  rw [← listed, none_registered] at exact_
  simp at exact_

end

/-- Over a set of instances, every lookup of a service answers with exactly its
registered instances, unmoved by calls about other services, if and only if no
instance of another service has a key that starts with the service's string. -/
theorem discovery_exact_iff {D : Type} (json : Json D) (S : Set ServiceInstance) (n : Text) :
    ((∀ history : List Call, (∀ call ∈ history, call.subject ∈ S) → Exact json history n) ∧
      ∀ (history : List Call) (call : Call), (∀ c ∈ history ++ [call], c.subject ∈ S) →
        Unmoved json history call n) ↔
      Separate S n := by
  constructor
  · rintro ⟨exact_, -⟩ si inside starts
    by_contra other
    apply not_exact_registry json starts other
    apply exact_
    simpa [Call.subject] using inside
  · intro separate
    refine ⟨fun history within => exact_of_separate separate within, fun history call within => ?_⟩
    exact unmoved_of_separate separate history (within call (by simp))

def Json.plain : Json ServiceInstance where
  marshal := .ok
  unmarshal := .ok
  undone := fun si => ⟨si, rfl, rfl⟩

/-- A lookup of `user` answers with an instance of `user-service`. -/
theorem user_lists_user_service :
    let si : ServiceInstance := ⟨utf8 "user-service", utf8 "127.0.0.1:8081", 1, []⟩
    listServices Json.plain (storeAfter Json.plain [.registry si]) (utf8 "user") [.withPrefix] =
        .ok [si] ∧
      (directoryAfter [.registry si]).instances (utf8 "user") = [] := by
  decide +kernel

end Soil.Registry
