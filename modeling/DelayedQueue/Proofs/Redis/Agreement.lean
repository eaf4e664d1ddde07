import DelayedQueue.Proofs.Keys.Names
import DelayedQueue.Proofs.Redis.Server
import DelayedQueue.Proofs.Store.Run

/-! # Both stores place alike

A space can be written as values under the three keys of its queue. A server that holds it so and is
sent what a queue sends when it produces, purges or counts ends up with what the store in memory
makes of the space, and no key of another queue is touched.
-/

namespace DelayedQueue

open Std (ExtTreeMap)

theorem Utf8.encode_injective : Function.Injective Utf8.encode := by
  intro s t h
  have hd := congrArg Utf8.decode? h
  unfold Utf8.encode at hd
  rw [Utf8.decode?_encodeChars, Utf8.decode?_encodeChars, Option.some.injEq] at hd
  exact String.toList_inj.mp hd

namespace Keys

variable {k : Keys} {name name' : String}

/-- The words under which a queue keeps its values are different ones. -/
structure Apart (k : Keys) : Prop where
  retry_ne_ready : Utf8.encode k.retry ≠ Utf8.encode k.ready
  data_ne_ready : Utf8.encode k.data ≠ Utf8.encode k.ready
  data_ne_retry : Utf8.encode k.data ≠ Utf8.encode k.retry

theorem apart_ofName (name : String) : (ofName name).Apart := by
  have hne {a b : String} (ha : a ∈ kinds) (hb : b ∈ kinds) (h : a ≠ b) :
      Utf8.encode (tagged name a) ≠ Utf8.encode (tagged name b) :=
    fun he => h (tagged_inj ha hb (Utf8.encode_injective he)).2
  exact ⟨hne (by decide) (by decide) (by decide), hne (by decide) (by decide) (by decide),
    hne (by decide) (by decide) (by decide)⟩

theorem not_mem_all_of_ne (hn : name' ≠ name) {key : String} (h : key ∈ (ofName name').all) :
    Utf8.encode key ∉ (ofName name).all.map Utf8.encode := by
  intro hm
  obtain ⟨key', hm', he⟩ := List.mem_map.mp hm
  obtain ⟨kind, hk, rfl⟩ := mem_all_ofName h
  obtain ⟨kind', hk', rfl⟩ := mem_all_ofName hm'
  exact hn (tagged_inj hk hk' (Utf8.encode_injective he).symm).1

end Keys

namespace Redis

section Entries

variable {β : Type} {m : ExtTreeMap String β}

/-- The entries under the bytes of their ids. -/
def encodeIds (m : ExtTreeMap String β) : ExtTreeMap Bytes β :=
  .ofList (m.toList.map fun e => (Utf8.encode e.1, e.2))

theorem distinct_encoded (m : ExtTreeMap String β) :
    (m.toList.map fun e => (Utf8.encode e.1, e.2)).Pairwise
      fun a b => ¬ compare a.1 b.1 = .eq := by
  rw [List.pairwise_map]
  refine m.distinct_keys_toList.imp fun h he => h ?_
  exact Std.compare_eq_iff_eq.mpr (Utf8.encode_injective (Std.compare_eq_iff_eq.mp he))

theorem getElem?_encodeIds (id : String) : (encodeIds m)[Utf8.encode id]? = m[id]? := by
  cases h : m[id]? with
  | some v =>
    refine ExtTreeMap.getElem?_ofList_of_mem Std.ReflCmp.compare_self (distinct_encoded m) ?_
    exact List.mem_map_of_mem (f := fun e => (Utf8.encode e.1, e.2))
      (ExtTreeMap.mem_toList_iff_getElem?_eq_some.mpr h)
  | none =>
    refine ExtTreeMap.getElem?_ofList_of_contains_eq_false ?_
    simp only [List.map_map, ← Bool.not_eq_true, List.contains_iff_mem, List.mem_map, not_exists,
      not_and]
    rintro ⟨id', v⟩ hm he
    rw [← Utf8.encode_injective he, ExtTreeMap.mem_toList_iff_getElem?_eq_some.mp hm] at h
    cases h

theorem getElem?_encodeIds_of_ne {b : Bytes} (h : ∀ id, Utf8.encode id ≠ b) :
    (encodeIds m)[b]? = none := by
  refine ExtTreeMap.getElem?_ofList_of_contains_eq_false ?_
  simp only [List.map_map, ← Bool.not_eq_true, List.contains_iff_mem, List.mem_map, not_exists,
    not_and]
  exact fun e _ he => h e.1 he

theorem encodeIds_insert (id : String) (v : β) :
    encodeIds (m.insert id v) = (encodeIds m).insert (Utf8.encode id) v := by
  refine ExtTreeMap.ext_getElem? fun b => ?_
  by_cases hb : ∃ id', Utf8.encode id' = b
  · obtain ⟨id', rfl⟩ := hb
    simp only [getElem?_encodeIds, ExtTreeMap.getElem?_insert, Std.compare_eq_iff_eq,
      Utf8.encode_injective.eq_iff]
  · have hne : ∀ id', Utf8.encode id' ≠ b := fun id' he => hb ⟨id', he⟩
    rw [getElem?_encodeIds_of_ne hne, ExtTreeMap.getElem?_insert, getElem?_encodeIds_of_ne hne,
      if_neg (fun he => hne id (Std.compare_eq_iff_eq.mp he))]

theorem size_encodeIds : (encodeIds m).size = m.size := by
  unfold encodeIds
  rw [ExtTreeMap.size_ofList (distinct_encoded m), List.length_map, ExtTreeMap.length_toList]

@[simp] theorem encodeIds_empty : encodeIds (∅ : ExtTreeMap String β) = ∅ := rfl

end Entries

namespace Keyspace

variable {ks : Keyspace} {k : Keys} {sp : Space}

/-- These values with those of a space under the keys of its queue. -/
def hold (ks : Keyspace) (k : Keys) (sp : Space) : Keyspace :=
  Function.update (Function.update (Function.update ks
    (Utf8.encode k.ready) (Value.ofList (sp.ready.map Utf8.encode)))
    (Utf8.encode k.retry) (Value.ofScores (encodeIds sp.pending)))
    (Utf8.encode k.data) (Value.ofFields (encodeIds sp.rows))

section Hold

variable (h : k.Apart)
include h

theorem hold_ready :
    ks.hold k sp (Utf8.encode k.ready) = Value.ofList (sp.ready.map Utf8.encode) := by
  unfold hold
  rw [Function.update_of_ne h.data_ne_ready.symm, Function.update_of_ne h.retry_ne_ready.symm,
    Function.update_self]

theorem hold_retry :
    ks.hold k sp (Utf8.encode k.retry) = Value.ofScores (encodeIds sp.pending) := by
  unfold hold
  rw [Function.update_of_ne h.data_ne_retry.symm, Function.update_self]

theorem update_ready (ready : List String) :
    Function.update (ks.hold k sp) (Utf8.encode k.ready) (Value.ofList (ready.map Utf8.encode)) =
      ks.hold k { sp with ready } := by
  unfold hold
  rw [Function.update_comm h.data_ne_ready, Function.update_comm h.retry_ne_ready,
    Function.update_idem]

theorem update_retry (pending : ExtTreeMap String Score) :
    Function.update (ks.hold k sp) (Utf8.encode k.retry) (Value.ofScores (encodeIds pending)) =
      ks.hold k { sp with pending } := by
  unfold hold
  rw [Function.update_comm h.data_ne_retry, Function.update_idem]

end Hold

theorem hold_data : ks.hold k sp (Utf8.encode k.data) = Value.ofFields (encodeIds sp.rows) :=
  Function.update_self ..

theorem update_data (rows : ExtTreeMap String Bytes) :
    Function.update (ks.hold k sp) (Utf8.encode k.data) (Value.ofFields (encodeIds rows)) =
      ks.hold k { sp with rows } :=
  Function.update_idem ..

theorem hold_of_not_mem {key : Bytes} (h : key ∉ k.all.map Utf8.encode) :
    ks.hold k sp key = ks key := by
  simp only [Keys.all, List.map_cons, List.map_nil, List.mem_cons, List.not_mem_nil, or_false,
    not_or] at h
  unfold hold
  rw [Function.update_of_ne h.2.2, Function.update_of_ne h.2.1, Function.update_of_ne h.1]

/-- The index by due time is not on the server. -/
theorem hold_congr {sp' : Space} (hr : sp.ready = sp'.ready) (hp : sp.pending = sp'.pending)
    (hd : sp.rows = sp'.rows) : ks.hold k sp = ks.hold k sp' := by
  unfold hold
  rw [hr, hp, hd]

section Execution

variable (ks sp)

theorem execute_hset (id : String) (row : Bytes) :
    ∃ n, (ks.hold k sp).execute .hset [Utf8.encode k.data, Utf8.encode id, row] =
      some (.integer n, ks.hold k (sp.putRow id row)) := by
  simp only [execute, pairs?, Option.map_some, change, hold_data, Value.fields?_ofFields, insertAll,
    List.foldl_cons, List.foldl_nil, ← encodeIds_insert, update_data]
  exact ⟨_, rfl⟩

variable (h : k.Apart)
include h

theorem execute_rpush (id : String) :
    ∃ n, (ks.hold k sp).execute .rpush [Utf8.encode k.ready, Utf8.encode id] =
      some (.integer n, ks.hold k { sp with ready := sp.ready ++ [id] }) := by
  have happend : sp.ready.map Utf8.encode ++ [Utf8.encode id] =
      (sp.ready ++ [id]).map Utf8.encode := by rw [List.map_append]; rfl
  simp only [execute, change, hold_ready h, Value.list?_ofList, happend, update_ready h]
  exact ⟨_, rfl⟩

theorem execute_zadd (id : String) (t : Time) :
    ∃ n, (ks.hold k sp).execute .zadd
      [Utf8.encode k.retry, Json.integer t.millis, Utf8.encode id] =
      some (.integer n, ks.hold k (sp.arm id t.millis)) := by
  have hpairs : (pairs? [Json.integer t.millis, Utf8.encode id]).bind (List.mapM scored?) =
      some [(Utf8.encode id, t.millis)] := by
    simp [pairs?, scored?, score?_integer (natAbs_millis_lt t)]
  have hpending : (sp.arm id t.millis).pending = sp.pending.insert id t.millis := by
    refine ExtTreeMap.ext_getElem? fun x => ?_
    refine (Space.score?_arm (x := x)).trans ?_
    simp only [ExtTreeMap.getElem?_insert, Std.compare_eq_iff_eq]
    rfl
  have hhold : ks.hold k { sp with pending := sp.pending.insert id t.millis } =
      ks.hold k (sp.arm id t.millis) := by
    refine hold_congr (Eq.symm ?_) hpending.symm (Eq.symm ?_)
    · exact Space.ready_arm
    · exact Space.rows_disarm
  simp only [execute, hpairs, change, hold_retry h, Value.scores?_ofScores, insertAll,
    List.foldl_cons, List.foldl_nil, ← encodeIds_insert, update_retry h, hhold]
  exact ⟨_, rfl⟩

theorem execute_del :
    ∃ n, (ks.hold k sp).execute .del (k.all.map Utf8.encode) =
      some (.integer n, ks.hold k Space.empty) := by
  have hgone : ((ks.hold k sp).delete (k.all.map Utf8.encode)).2 = ks.hold k Space.empty := by
    funext key
    by_cases hm : key ∈ k.all.map Utf8.encode
    · have he : ks.hold k Space.empty key = none := by
        simp only [Keys.all, List.map_cons, List.map_nil, List.mem_cons, List.not_mem_nil,
          or_false] at hm
        rcases hm with rfl | rfl | rfl
        · rw [hold_ready h]; rfl
        · rw [hold_retry h]; exact Value.ofScores_empty
        · rw [hold_data]; exact Value.ofFields_empty
      rw [he]
      exact if_pos hm
    · rw [hold_of_not_mem hm]
      exact (if_neg hm).trans (hold_of_not_mem hm)
  exact ⟨_, congrArg some (Prod.ext rfl hgone)⟩

end Execution

end Keyspace

namespace Server

variable {ks : Keyspace} {c : Command} {v : Verb} {args : List Bytes}

theorem parse?_command (v : Verb) (args : List Bytes) :
    parse? (Command.text v.name :: args.map .bytes) = some (v, args) := by
  have hargs : (args.map Word.bytes).mapM word? = some args := by
    induction args with
    | nil => rfl
    | cons a args ih => simp [word?, ih]
  simp [parse?, Command.text, word?, hargs, Verb.ofBytes?_name]

theorem receive_queued (hc : parse? c = some (v, args)) (hm : v ≠ .multi) (he : v ≠ .exec)
    (cs : List (Verb × List Bytes)) : (⟨ks, some cs⟩ : Server).receive c =
      some (.status "QUEUED", ⟨ks, some (cs ++ [(v, args)])⟩) := by
  unfold receive
  split <;> simp_all

theorem receive_alone (hc : parse? c = some (v, args)) (hm : v ≠ .multi) (he : v ≠ .exec)
    {r : Reply} {ks' : Keyspace} (hx : ks.execute v args = some (r, ks')) :
    (⟨ks, none⟩ : Server).receive c = some (r, ⟨ks', none⟩) := by
  unfold receive
  split <;> simp_all

theorem receiveAll_transaction {c' : Command} {v' : Verb} {args' : List Bytes}
    {ks₁ ks₂ : Keyspace} {n n' : Int}
    (hc : parse? c = some (v, args)) (hc' : parse? c' = some (v', args'))
    (hm : v ≠ .multi) (he : v ≠ .exec) (hm' : v' ≠ .multi) (he' : v' ≠ .exec)
    (hx : ks.execute v args = some (.integer n, ks₁))
    (hx' : ks₁.execute v' args' = some (.integer n', ks₂)) :
    (⟨ks, none⟩ : Server).receiveAll [[Command.text "MULTI"], c, c', [Command.text "EXEC"]] =
      some ([.status "OK", .status "QUEUED", .status "QUEUED", .array [.integer n, .integer n']],
        ⟨ks₂, none⟩) := by
  have hmulti : parse? [Command.text "MULTI"] = some (.multi, []) := parse?_command .multi []
  have hexec : parse? [Command.text "EXEC"] = some (.exec, []) := parse?_command .exec []
  have hopen : (⟨ks, none⟩ : Server).receive [Command.text "MULTI"] =
      some (.status "OK", ⟨ks, some []⟩) := by simp only [receive, hmulti]
  have hall : ks.executeAll [(v, args), (v', args')] =
      some ([.integer n, .integer n'], ks₂) := by
    simp only [Keyspace.executeAll, hx, hx', Option.map_some]
  have hrun : (⟨ks, some [(v, args), (v', args')]⟩ : Server).receive [Command.text "EXEC"] =
      some (.array [.integer n, .integer n'], ⟨ks₂, none⟩) := by
    simp only [receive, hexec, hall, Option.map_some]
  simp only [receiveAll, hopen, receive_queued hc hm he, receive_queued hc' hm' he',
    List.nil_append, List.cons_append, hrun, Option.map_some]

end Server

section Talks

variable {k : Keys} (ks : Keyspace) (sp : Space)

theorem exists_place (h : k.Apart) (m : Message) (now : Time) :
    ∃ v args n, Server.parse? (Command.place k m now) = some (v, args) ∧ v ≠ .multi ∧ v ≠ .exec ∧
      (ks.hold k (sp.putRow m.id (Row.encode m))).execute v args =
        some (.integer n, ks.hold k (sp.produce m now)) := by
  have hready := Keyspace.execute_rpush ks (sp.putRow m.id (Row.encode m)) h m.id
  unfold Command.place Space.produce
  cases ht : m.deliverAt with
  | none =>
    obtain ⟨n, hn⟩ := hready
    exact ⟨.rpush, _, n, Server.parse?_command .rpush [_, _], by decide, by decide, hn⟩
  | some t =>
    simp only
    split
    · obtain ⟨n, hn⟩ := hready
      exact ⟨.rpush, _, n, Server.parse?_command .rpush [_, _], by decide, by decide, hn⟩
    · obtain ⟨n, hn⟩ := Keyspace.execute_zadd ks (sp.putRow m.id (Row.encode m)) h m.id t
      exact ⟨.zadd, _, n, Server.parse?_command .zadd [_, _, _], by decide, by decide, hn⟩

theorem serve_produce (h : k.Apart) (m : Message) (now : Time) :
    (produce k m now).serve ⟨ks.hold k sp, none⟩ =
      some (.ok (.ok ()), ⟨ks.hold k (sp.produce m now), none⟩) := by
  obtain ⟨n, hstore⟩ := Keyspace.execute_hset ks sp m.id (Row.encode m)
  obtain ⟨v, args, n', hc, hm, he, hplace⟩ := exists_place ks sp h m now
  have hstored : Server.parse? (Command.storeRow k m) = some (.hset, _) :=
    Server.parse?_command .hset [_, _, _]
  have hall := Server.receiveAll_transaction hstored hc (by decide) (by decide) hm he hstore hplace
  simp only [produce, Talk.serve, Command.produce, hall]
  rfl

theorem serve_purge (h : k.Apart) : (purge k).serve ⟨ks.hold k sp, none⟩ =
    some (.ok (), ⟨ks.hold k Space.empty, none⟩) := by
  obtain ⟨n, hdel⟩ := Keyspace.execute_del ks sp h
  have hr := Server.receive_alone (Server.parse?_command .del (k.all.map Utf8.encode))
    (by decide) (by decide) hdel
  rw [List.map_map] at hr
  change Server.receive _ (Command.purge k) = _ at hr
  simp only [purge, Talk.command, Talk.serve, Server.receiveAll, hr, Option.map_some]
  rfl

theorem serve_stats (h : k.Apart) : (stats k).serve ⟨ks.hold k sp, none⟩ =
    some (.ok ⟨UInt64.ofNat sp.stats.ready, UInt64.ofNat sp.stats.pending,
      UInt64.ofNat sp.stats.stored⟩, ⟨ks.hold k sp, none⟩) := by
  have hllen : (ks.hold k sp).execute .llen [Utf8.encode k.ready] =
      some (.integer sp.stats.ready, ks.hold k sp) := by
    simp only [Keyspace.execute, Keyspace.count, Keyspace.hold_ready h, Value.list?_ofList,
      List.length_map]
    rfl
  have hzcard : (ks.hold k sp).execute .zcard [Utf8.encode k.retry] =
      some (.integer sp.stats.pending, ks.hold k sp) := by
    simp only [Keyspace.execute, Keyspace.count, Keyspace.hold_retry h, Value.scores?_ofScores,
      size_encodeIds]
    rfl
  have hhlen : (ks.hold k sp).execute .hlen [Utf8.encode k.data] =
      some (.integer sp.stats.stored, ks.hold k sp) := by
    simp only [Keyspace.execute, Keyspace.count, Keyspace.hold_data, Value.fields?_ofFields,
      size_encodeIds]
    rfl
  have hready :=
    Server.receive_alone (Server.parse?_command .llen [_]) (by decide) (by decide) hllen
  have hpending := Server.receive_alone (Server.parse?_command .zcard [_]) (by decide) (by decide)
    hzcard
  have hstored := Server.receive_alone (Server.parse?_command .hlen [_]) (by decide) (by decide)
    hhlen
  have hall : (⟨ks.hold k sp, none⟩ : Server).receiveAll (Command.stats k) =
      some ([.integer sp.stats.ready, .integer sp.stats.pending, .integer sp.stats.stored],
        ⟨ks.hold k sp, none⟩) := by
    change Server.receive _ [Command.text "LLEN", Command.text k.ready] = _ at hready
    change Server.receive _ [Command.text "ZCARD", Command.text k.retry] = _ at hpending
    change Server.receive _ [Command.text "HLEN", Command.text k.data] = _ at hstored
    simp only [Command.stats, Server.receiveAll, hready, hpending, hstored, Option.map_some]
  have hword (n : Nat) : (Reply.integer n).toWord = .ok (UInt64.ofNat n) := by
    have hmod : ((n : Int) % 2 ^ 64).toNat = n % 2 ^ 64 := by omega
    rw [Reply.toWord, UInt64.ofInt, hmod, UInt64.ofNat_mod_size]
  simp only [stats, Talk.serve, hall, countsOfReplies, hword]
  rfl

end Talks

/-- Take any store, any values on a server, and the values under the keys of one queue as the space
of that queue has them. Producing any message at any time is answered, and leaves what the store
makes of the space; so does a purge; and the counts are those of the store, of which the server
keeps everything. The keys of other queues have the values that they had, as their spaces are what
they were. Scores of all times have less bits than the significand of a double, and are held
exactly. -/
theorem stores_alike (st : Store) (ks : Keyspace) (name : String) :
    let k := Keys.ofName name
    let server : Server := ⟨ks.hold k (st.space k), none⟩
    (∀ m now, (produce k m now).serve server =
      some (.ok (.ok ()), ⟨ks.hold k ((st.produce k m now).space k), none⟩)) ∧
    (purge k).serve server = some (.ok (), ⟨ks.hold k ((st.purge k).space k), none⟩) ∧
    (stats k).serve server = some (.ok ⟨UInt64.ofNat (st.stats k).ready,
      UInt64.ofNat (st.stats k).pending, UInt64.ofNat (st.stats k).stored⟩, server) ∧
    (∀ name' ≠ name, let k' := Keys.ofName name'
      (∀ key ∈ k'.all, ∀ sp, ks.hold k sp (Utf8.encode key) = ks (Utf8.encode key)) ∧
      (∀ m now, (st.produce k m now).space k' = st.space k') ∧
      (st.purge k).space k' = st.space k') ∧
    ∀ t : Time, t.millis.natAbs < 2 ^ 53 ∧
      ∃ word, Command.number t.millis = .bytes word ∧ score? word = some t.millis := by
  intro k server
  have h : k.Apart := Keys.apart_ofName name
  refine ⟨fun m now => ?_, ?_, serve_stats ks _ h, fun name' hn => ?_, fun t => ?_⟩
  · rw [show (st.produce k m now).space k = (st.space k).produce m now from
      Store.space_apply (.produce m now)]
    exact serve_produce ks _ h m now
  · rw [show (st.purge k).space k = Space.empty from Store.space_apply .purge]
    exact serve_purge ks _ h
  · have hdata : k.data ≠ (Keys.ofName name').data := fun he =>
      hn (Keys.tagged_inj (by decide) (by decide) he).1.symm
    exact ⟨fun key hk sp => Keyspace.hold_of_not_mem (Keys.not_mem_all_of_ne hn hk),
      fun m now => Store.space_apply_of_ne hdata (.produce m now),
      Store.space_apply_of_ne hdata .purge⟩
  · exact ⟨natAbs_millis_lt t, _, rfl, score?_integer (natAbs_millis_lt t)⟩

/-- The message `a` of queue `q` is ready and is produced anew, to be due later. It is ready and
pending then, here and there, and nothing has come under a key of queue `r`. -/
theorem stores_alike_anew :
    let k := Keys.ofName "q"
    let st := Store.empty.run k [.produce ⟨"a", [1], .epoch, none, none, 0⟩ .epoch]
    ∃ server, (produce k ⟨"a", [2], .epoch, some .latest, none, 0⟩ .epoch).serve
        ⟨Keyspace.hold (fun _ => none) k (st.space k), none⟩ = some (.ok (.ok ()), server) ∧
      Value.list? (server.keys (Utf8.encode k.ready)) = some [Utf8.encode "a"] ∧
      (Value.scores? (server.keys (Utf8.encode k.retry))).map ExtTreeMap.toList =
        some [(Utf8.encode "a", Time.latest.millis)] ∧
      ∀ key ∈ (Keys.ofName "r").all, (server.keys (Utf8.encode key)).isNone = true := by
  intro k st
  obtain ⟨hproduce, -, -, hothers, -⟩ := stores_alike st (fun _ => none) "q"
  refine ⟨_, hproduce ⟨"a", [2], .epoch, some .latest, none, 0⟩ .epoch, by decide +kernel,
    by decide +kernel, fun key hk => ?_⟩
  exact congrArg Option.isNone ((hothers "r" (by decide)).1 key hk _)

end Redis

end DelayedQueue
