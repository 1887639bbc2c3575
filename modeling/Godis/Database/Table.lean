import Godis.Database.ClusterHelper
import Godis.Database.List
import Godis.Database.Set
import Godis.Database.Geo

/-!
# The command table (`database/router.go`, `DB.execWithLock` of `database/database.go`)
-/

namespace Godis.Database

open Golang Program

variable {F : Type}

/-- The registered commands, file by file; the last ones are those that only the server handles. -/
inductive Name where
  | del | expire | expireat | expiretime | pexpire | pexpireat | pexpiretime | ttl | pttl
  | persist | exists | type | rename | renamenx | keys | scan
  | set | setnx | setex | psetex | mset | mget | msetnx | get | getex | getset | getdel | incr
  | incrby | incrbyfloat | decr | decrby | strlen | append | setrange | getrange | setbit
  | getbit | bitcount | bitpos | randomkey
  | lpush | lpushx | rpush | rpushx | lpop | rpop | rpoplpush | lrem | llen | lindex | lset
  | lrange | ltrim | linsert
  | hset | hsetnx | hget | hexists | hdel | hlen | hstrlen | hmset | hmget | hkeys | hvals
  | hgetall | hincrby | hincrbyfloat | hrandfield | hscan
  | sadd | sismember | srem | spop | scard | smembers | sinter | sinterstore | sunion
  | sunionstore | sdiff | sdiffstore | srandmember | sscan
  | zadd | zscore | zincrby | zrank | zcount | zrevrank | zcard | zrange | zrangebyscore
  | zrevrange | zrevrangebyscore | zpopmin | zrem | zremrangebyscore | zremrangebyrank
  | zlexcount | zrangebylex | zremrangebylex | zrevrangebylex | zscan
  | geoadd | geopos | geodist | geohash | georadius | georadiusbymember
  | dumpkey | existin | renamefrom | renameto | renamenxto | copyfrom | copyto
  | getver
  | command | auth | info | slaveof | subscribe | publish | flushall | flushdb | save | bgsave
  | select | replconf | multi | discard | exec | watch
  deriving DecidableEq

namespace Name

def text : Name → String
  | .del => "del"
  | .expire => "expire"
  | .expireat => "expireat"
  | .expiretime => "expiretime"
  | .pexpire => "pexpire"
  | .pexpireat => "pexpireat"
  | .pexpiretime => "pexpiretime"
  | .ttl => "ttl"
  | .pttl => "pttl"
  | .persist => "persist"
  | .exists => "exists"
  | .type => "type"
  | .rename => "rename"
  | .renamenx => "renamenx"
  | .keys => "keys"
  | .scan => "scan"
  | .set => "set"
  | .setnx => "setnx"
  | .setex => "setex"
  | .psetex => "psetex"
  | .mset => "mset"
  | .mget => "mget"
  | .msetnx => "msetnx"
  | .get => "get"
  | .getex => "getex"
  | .getset => "getset"
  | .getdel => "getdel"
  | .incr => "incr"
  | .incrby => "incrby"
  | .incrbyfloat => "incrbyfloat"
  | .decr => "decr"
  | .decrby => "decrby"
  | .strlen => "strlen"
  | .append => "append"
  | .setrange => "setrange"
  | .getrange => "getrange"
  | .setbit => "setbit"
  | .getbit => "getbit"
  | .bitcount => "bitcount"
  | .bitpos => "bitpos"
  | .randomkey => "randomkey"
  | .lpush => "lpush"
  | .lpushx => "lpushx"
  | .rpush => "rpush"
  | .rpushx => "rpushx"
  | .lpop => "lpop"
  | .rpop => "rpop"
  | .rpoplpush => "rpoplpush"
  | .lrem => "lrem"
  | .llen => "llen"
  | .lindex => "lindex"
  | .lset => "lset"
  | .lrange => "lrange"
  | .ltrim => "ltrim"
  | .linsert => "linsert"
  | .hset => "hset"
  | .hsetnx => "hsetnx"
  | .hget => "hget"
  | .hexists => "hexists"
  | .hdel => "hdel"
  | .hlen => "hlen"
  | .hstrlen => "hstrlen"
  | .hmset => "hmset"
  | .hmget => "hmget"
  | .hkeys => "hkeys"
  | .hvals => "hvals"
  | .hgetall => "hgetall"
  | .hincrby => "hincrby"
  | .hincrbyfloat => "hincrbyfloat"
  | .hrandfield => "hrandfield"
  | .hscan => "hscan"
  | .sadd => "sadd"
  | .sismember => "sismember"
  | .srem => "srem"
  | .spop => "spop"
  | .scard => "scard"
  | .smembers => "smembers"
  | .sinter => "sinter"
  | .sinterstore => "sinterstore"
  | .sunion => "sunion"
  | .sunionstore => "sunionstore"
  | .sdiff => "sdiff"
  | .sdiffstore => "sdiffstore"
  | .srandmember => "srandmember"
  | .sscan => "sscan"
  | .zadd => "zadd"
  | .zscore => "zscore"
  | .zincrby => "zincrby"
  | .zrank => "zrank"
  | .zcount => "zcount"
  | .zrevrank => "zrevrank"
  | .zcard => "zcard"
  | .zrange => "zrange"
  | .zrangebyscore => "zrangebyscore"
  | .zrevrange => "zrevrange"
  | .zrevrangebyscore => "zrevrangebyscore"
  | .zpopmin => "zpopmin"
  | .zrem => "zrem"
  | .zremrangebyscore => "zremrangebyscore"
  | .zremrangebyrank => "zremrangebyrank"
  | .zlexcount => "zlexcount"
  | .zrangebylex => "zrangebylex"
  | .zremrangebylex => "zremrangebylex"
  | .zrevrangebylex => "zrevrangebylex"
  | .zscan => "zscan"
  | .geoadd => "geoadd"
  | .geopos => "geopos"
  | .geodist => "geodist"
  | .geohash => "geohash"
  | .georadius => "georadius"
  | .georadiusbymember => "georadiusbymember"
  | .dumpkey => "dumpkey"
  | .existin => "existin"
  | .renamefrom => "renamefrom"
  | .renameto => "renameto"
  | .renamenxto => "renamenxto"
  | .copyfrom => "copyfrom"
  | .copyto => "copyto"
  | .getver => "getver"
  | .command => "command"
  | .auth => "auth"
  | .info => "info"
  | .slaveof => "slaveof"
  | .subscribe => "subscribe"
  | .publish => "publish"
  | .flushall => "flushall"
  | .flushdb => "flushdb"
  | .save => "save"
  | .bgsave => "bgsave"
  | .select => "select"
  | .replconf => "replconf"
  | .multi => "multi"
  | .discard => "discard"
  | .exec => "exec"
  | .watch => "watch"

def all : List Name :=
  [.del, .expire, .expireat, .expiretime, .pexpire, .pexpireat, .pexpiretime, .ttl, .pttl,
    .persist, .exists, .type, .rename, .renamenx, .keys, .scan, .set, .setnx, .setex, .psetex,
    .mset, .mget, .msetnx, .get, .getex, .getset, .getdel, .incr, .incrby, .incrbyfloat,
    .decr, .decrby, .strlen, .append, .setrange, .getrange, .setbit, .getbit, .bitcount,
    .bitpos, .randomkey, .lpush, .lpushx, .rpush, .rpushx, .lpop, .rpop, .rpoplpush, .lrem,
    .llen, .lindex, .lset, .lrange, .ltrim, .linsert, .hset, .hsetnx, .hget, .hexists, .hdel,
    .hlen, .hstrlen, .hmset, .hmget, .hkeys, .hvals, .hgetall, .hincrby, .hincrbyfloat,
    .hrandfield, .hscan, .sadd, .sismember, .srem, .spop, .scard, .smembers, .sinter,
    .sinterstore, .sunion, .sunionstore, .sdiff, .sdiffstore, .srandmember, .sscan, .zadd,
    .zscore, .zincrby, .zrank, .zcount, .zrevrank, .zcard, .zrange, .zrangebyscore,
    .zrevrange, .zrevrangebyscore, .zpopmin, .zrem, .zremrangebyscore, .zremrangebyrank,
    .zlexcount, .zrangebylex, .zremrangebylex, .zrevrangebylex, .zscan, .geoadd, .geopos,
    .geodist, .geohash, .georadius, .georadiusbymember, .dumpkey, .existin, .renamefrom,
    .renameto, .renamenxto, .copyfrom, .copyto, .getver, .command, .auth, .info, .slaveof,
    .subscribe, .publish, .flushall, .flushdb, .save, .bgsave, .select, .replconf, .multi,
    .discard, .exec, .watch]

def ofText (name : Str) : Option Name :=
  all.find? fun candidate => lit candidate.text = name

theorem ofText_text {name : Name} : ofText (toLower (lit name.text)) = some name := by
  cases name <;> decide

end Name

/-! ## Keys a command is prepared with: those written and those read -/

def firstKey (args : List Bytes) : List Key :=
  args.head?.toList.map str

def readFirstKey (args : List Bytes) : List Key × List Key :=
  ([], firstKey args)

def writeFirstKey (args : List Bytes) : List Key × List Key :=
  (firstKey args, [])

def writeAllKeys (args : List Bytes) : List Key × List Key :=
  (args.map str, [])

/-- `readAllKeys`, `prepareMGet` and `prepareSetCalculate`. -/
def readAllKeys (args : List Bytes) : List Key × List Key :=
  ([], args.map str)

def noPrepare (_ : List Bytes) : List Key × List Key :=
  ([], [])

/-- Only the destination is written. -/
def prepareRename (args : List Bytes) : List Key × List Key :=
  (firstKey args.tail, firstKey args)

def prepareMSet (args : List Bytes) : List Key × List Key :=
  ((pairs args).map fun pair => str pair.1, [])

def prepareRPopLPush (args : List Bytes) : List Key × List Key :=
  (firstKey args ++ firstKey args.tail, [])

def prepareSetCalculateStore (args : List Bytes) : List Key × List Key :=
  (firstKey args, args.tail.map str)

/-! ## Commands -/

inductive Executor (F : Type) where
  | readKey (body : List Bytes → SlotReader F Reply)
  | changeKey (body : List Bytes → SlotProg F Reply)
  | readKeys (body : List Bytes → DbReader F Reply)
  | changeKeys (body : List Bytes → DbProg F Reply)
  /-- `execRenameTo` and `execCopyTo`, which execute command lines themselves. -/
  | load
  /-- No function at all. -/
  | special

structure Command (F : Type) where
  executor : Executor F
  prepare : Option (List Bytes → List Key × List Key)
  undo : Option (List Bytes → DbReader F (List Line))
  arity : Int
  readOnly : Bool

def undoOnKey (undo : List Bytes → SlotReader F (List Line)) : List Bytes → DbReader F (List Line)
  | key :: more => readAt (str key) (undo (key :: more))
  | [] => .stop .panic

/-- The command registered under a name.  `hget` is registered twice, the second time with
arity -3, and `keys` as a normal command after it was as a special one. -/
def command [Float64 F] : Name → Command F
  | .del => ⟨.changeKeys execDel, some writeAllKeys, some undoDel, -2, false⟩
  | .expire => ⟨.changeKey execExpire, some writeFirstKey, some (undoOnKey undoExpire), 3, false⟩
  | .expireat =>
    ⟨.changeKey execExpireAt, some writeFirstKey, some (undoOnKey undoExpire), 3, false⟩
  | .expiretime => ⟨.readKey execExpireTime, some readFirstKey, none, 2, true⟩
  | .pexpire => ⟨.changeKey execPExpire, some writeFirstKey, some (undoOnKey undoExpire), 3, false⟩
  | .pexpireat =>
    ⟨.changeKey execPExpireAt, some writeFirstKey, some (undoOnKey undoExpire), 3, false⟩
  | .pexpiretime => ⟨.readKey execPExpireTime, some readFirstKey, none, 2, true⟩
  | .ttl => ⟨.readKey execTTL, some readFirstKey, none, 2, true⟩
  | .pttl => ⟨.readKey execPTTL, some readFirstKey, none, 2, true⟩
  | .persist => ⟨.changeKey execPersist, some writeFirstKey, some (undoOnKey undoExpire), 2, false⟩
  | .exists => ⟨.readKeys execExists, some readAllKeys, none, -2, true⟩
  | .type => ⟨.readKey execType, some readFirstKey, none, 2, true⟩
  | .rename => ⟨.changeKeys execRename, some prepareRename, some undoRename, 3, true⟩
  | .renamenx => ⟨.changeKeys execRenameNx, some prepareRename, some undoRename, 3, true⟩
  | .keys => ⟨.readKeys execKeys, some noPrepare, none, 2, true⟩
  | .scan => ⟨.readKeys execScan, some noPrepare, none, -2, true⟩
  | .set => ⟨.changeKey execSet, some writeFirstKey, some rollbackFirstKey, -3, false⟩
  | .setnx => ⟨.changeKey execSetNX, some writeFirstKey, some rollbackFirstKey, 3, false⟩
  | .setex => ⟨.changeKey execSetEX, some writeFirstKey, some rollbackFirstKey, 4, false⟩
  | .psetex => ⟨.changeKey execPSetEX, some writeFirstKey, some rollbackFirstKey, 4, false⟩
  | .mset => ⟨.changeKeys execMSet, some prepareMSet, some undoMSet, -3, false⟩
  | .mget => ⟨.readKeys execMGet, some readAllKeys, none, -2, true⟩
  | .msetnx => ⟨.changeKeys execMSetNX, some prepareMSet, some undoMSet, -3, false⟩
  | .get => ⟨.readKey execGet, some readFirstKey, none, 2, true⟩
  | .getex => ⟨.changeKey execGetEX, some writeFirstKey, some rollbackFirstKey, -2, true⟩
  | .getset => ⟨.changeKey execGetSet, some writeFirstKey, some rollbackFirstKey, 3, false⟩
  | .getdel => ⟨.changeKey execGetDel, some writeFirstKey, some rollbackFirstKey, 2, false⟩
  | .incr => ⟨.changeKey execIncr, some writeFirstKey, some rollbackFirstKey, 2, false⟩
  | .incrby => ⟨.changeKey execIncrBy, some writeFirstKey, some rollbackFirstKey, 3, false⟩
  | .incrbyfloat =>
    ⟨.changeKey execIncrByFloat, some writeFirstKey, some rollbackFirstKey, 3, false⟩
  | .decr => ⟨.changeKey execDecr, some writeFirstKey, some rollbackFirstKey, 2, false⟩
  | .decrby => ⟨.changeKey execDecrBy, some writeFirstKey, some rollbackFirstKey, 3, false⟩
  | .strlen => ⟨.readKey execStrLen, some readFirstKey, none, 2, true⟩
  | .append => ⟨.changeKey execAppend, some writeFirstKey, some rollbackFirstKey, 3, false⟩
  | .setrange => ⟨.changeKey execSetRange, some writeFirstKey, some rollbackFirstKey, 4, false⟩
  | .getrange => ⟨.readKey execGetRange, some readFirstKey, none, 4, true⟩
  | .setbit => ⟨.changeKey execSetBit, some writeFirstKey, some rollbackFirstKey, 4, false⟩
  | .getbit => ⟨.readKey execGetBit, some readFirstKey, none, 3, true⟩
  | .bitcount => ⟨.readKey execBitCount, some readFirstKey, none, -2, true⟩
  | .bitpos => ⟨.readKey execBitPos, some readFirstKey, none, -3, true⟩
  | .randomkey => ⟨.readKeys execRandomKey, some readAllKeys, none, 1, true⟩
  | .lpush => ⟨.changeKey execLPush, some writeFirstKey, some (undoOnKey undoLPush), -3, false⟩
  | .lpushx => ⟨.changeKey execLPushX, some writeFirstKey, some (undoOnKey undoLPush), -3, false⟩
  | .rpush => ⟨.changeKey execRPush, some writeFirstKey, some (undoOnKey undoRPush), -3, false⟩
  | .rpushx => ⟨.changeKey execRPushX, some writeFirstKey, some (undoOnKey undoRPush), -3, false⟩
  | .lpop => ⟨.changeKey execLPop, some writeFirstKey, some (undoOnKey undoLPop), -2, false⟩
  | .rpop => ⟨.changeKey execRPop, some writeFirstKey, some (undoOnKey undoRPop), -2, false⟩
  | .rpoplpush => ⟨.changeKeys execRPopLPush, some prepareRPopLPush, some undoRPopLPush, 3, false⟩
  | .lrem => ⟨.changeKey execLRem, some writeFirstKey, some rollbackFirstKey, 4, false⟩
  | .llen => ⟨.readKey execLLen, some readFirstKey, none, 2, true⟩
  | .lindex => ⟨.readKey execLIndex, some readFirstKey, none, 3, true⟩
  | .lset => ⟨.changeKey execLSet, some writeFirstKey, some (undoOnKey undoLSet), 4, false⟩
  | .lrange => ⟨.readKey execLRange, some readFirstKey, none, 4, true⟩
  | .ltrim => ⟨.changeKey execLTrim, some writeFirstKey, some rollbackFirstKey, 4, false⟩
  | .linsert => ⟨.changeKey execLInsert, some writeFirstKey, some rollbackFirstKey, 5, false⟩
  | .hset => ⟨.changeKey execHSet, some writeFirstKey, some (undoOnKey undoHSet), 4, false⟩
  | .hsetnx => ⟨.changeKey execHSetNX, some writeFirstKey, some (undoOnKey undoHSet), 4, false⟩
  | .hget => ⟨.readKey execHGet, some readFirstKey, none, -3, true⟩
  | .hexists => ⟨.readKey execHExists, some readFirstKey, none, 3, true⟩
  | .hdel => ⟨.changeKey execHDel, some writeFirstKey, some (undoOnKey undoHDel), -3, false⟩
  | .hlen => ⟨.readKey execHLen, some readFirstKey, none, 2, true⟩
  | .hstrlen => ⟨.readKey execHStrlen, some readFirstKey, none, 3, true⟩
  | .hmset => ⟨.changeKey execHMSet, some writeFirstKey, some (undoOnKey undoHMSet), -4, false⟩
  | .hmget => ⟨.readKey execHMGet, some readFirstKey, none, -3, true⟩
  | .hkeys => ⟨.readKey execHKeys, some readFirstKey, none, 2, true⟩
  | .hvals => ⟨.readKey execHVals, some readFirstKey, none, 2, true⟩
  | .hgetall => ⟨.readKey execHGetAll, some readFirstKey, none, 2, true⟩
  | .hincrby => ⟨.changeKey execHIncrBy, some writeFirstKey, some (undoOnKey undoHSet), 4, false⟩
  | .hincrbyfloat =>
    ⟨.changeKey execHIncrByFloat, some writeFirstKey, some (undoOnKey undoHSet), 4, false⟩
  | .hrandfield => ⟨.readKey execHRandField, some readFirstKey, none, -2, true⟩
  | .hscan => ⟨.readKey execHScan, some readFirstKey, none, -2, true⟩
  | .sadd => ⟨.changeKey execSAdd, some writeFirstKey, some (undoOnKey undoSetChange), -3, false⟩
  | .sismember => ⟨.readKey execSIsMember, some readFirstKey, none, 3, true⟩
  | .srem => ⟨.changeKey execSRem, some writeFirstKey, some (undoOnKey undoSetChange), -3, false⟩
  | .spop => ⟨.changeKey execSPop, some writeFirstKey, some (undoOnKey undoSetChange), -2, false⟩
  | .scard => ⟨.readKey execSCard, some readFirstKey, none, 2, true⟩
  | .smembers => ⟨.readKey execSMembers, some readFirstKey, none, 2, true⟩
  | .sinter => ⟨.readKeys execSInter, some readAllKeys, none, -2, true⟩
  | .sinterstore =>
    ⟨.changeKeys execSInterStore, some prepareSetCalculateStore, some rollbackFirstKey, -3, false⟩
  | .sunion => ⟨.readKeys execSUnion, some readAllKeys, none, -2, true⟩
  | .sunionstore =>
    ⟨.changeKeys execSUnionStore, some prepareSetCalculateStore, some rollbackFirstKey, -3, false⟩
  | .sdiff => ⟨.readKeys execSDiff, some readAllKeys, none, -2, true⟩
  | .sdiffstore =>
    ⟨.changeKeys execSDiffStore, some prepareSetCalculateStore, some rollbackFirstKey, -3, false⟩
  | .srandmember => ⟨.readKey execSRandMember, some readFirstKey, none, -2, true⟩
  | .sscan => ⟨.readKey execSScan, some readFirstKey, none, -2, true⟩
  | .zadd => ⟨.changeKey execZAdd, some writeFirstKey, some (undoOnKey undoZAdd), -4, false⟩
  | .zscore => ⟨.readKey execZScore, some readFirstKey, none, 3, true⟩
  | .zincrby => ⟨.changeKey execZIncrBy, some writeFirstKey, some (undoOnKey undoZIncr), 4, false⟩
  | .zrank => ⟨.readKey execZRank, some readFirstKey, none, 3, true⟩
  | .zcount => ⟨.readKey execZCount, some readFirstKey, none, 4, true⟩
  | .zrevrank => ⟨.readKey execZRevRank, some readFirstKey, none, 3, true⟩
  | .zcard => ⟨.readKey execZCard, some readFirstKey, none, 2, true⟩
  | .zrange => ⟨.readKey execZRange, some readFirstKey, none, -4, true⟩
  | .zrangebyscore => ⟨.readKey execZRangeByScore, some readFirstKey, none, -4, true⟩
  | .zrevrange => ⟨.readKey execZRevRange, some readFirstKey, none, -4, true⟩
  | .zrevrangebyscore => ⟨.readKey execZRevRangeByScore, some readFirstKey, none, -4, true⟩
  | .zpopmin => ⟨.changeKey execZPopMin, some writeFirstKey, some rollbackFirstKey, -2, false⟩
  | .zrem => ⟨.changeKey execZRem, some writeFirstKey, some (undoOnKey undoZRem), -3, false⟩
  | .zremrangebyscore =>
    ⟨.changeKey execZRemRangeByScore, some writeFirstKey, some rollbackFirstKey, 4, false⟩
  | .zremrangebyrank =>
    ⟨.changeKey execZRemRangeByRank, some writeFirstKey, some rollbackFirstKey, 4, false⟩
  | .zlexcount => ⟨.readKey execZLexCount, some readFirstKey, none, 4, true⟩
  | .zrangebylex => ⟨.readKey execZRangeByLex, some readFirstKey, none, -4, true⟩
  | .zremrangebylex =>
    ⟨.changeKey execZRemRangeByLex, some writeFirstKey, some rollbackFirstKey, 4, false⟩
  | .zrevrangebylex => ⟨.readKey execZRevRangeByLex, some readFirstKey, none, -4, true⟩
  | .zscan => ⟨.readKey execZScan, some readFirstKey, none, -2, true⟩
  | .geoadd => ⟨.changeKey execGeoAdd, some writeFirstKey, some (undoOnKey undoGeoAdd), -5, false⟩
  | .geopos => ⟨.readKey execGeoPos, some readFirstKey, none, -2, true⟩
  | .geodist => ⟨.readKey execGeoDist, some readFirstKey, none, -4, true⟩
  | .geohash => ⟨.readKey execGeoHash, some readFirstKey, none, -2, true⟩
  | .georadius => ⟨.readKey execGeoRadius, some readFirstKey, none, -6, true⟩
  | .georadiusbymember => ⟨.readKey execGeoRadiusByMember, some readFirstKey, none, -5, true⟩
  | .dumpkey => ⟨.readKey execDumpKey, some writeAllKeys, some undoDel, 2, true⟩
  | .existin => ⟨.readKeys execExistIn, some readAllKeys, none, -1, true⟩
  | .renamefrom => ⟨.changeKey execRenameFrom, some readFirstKey, none, 2, false⟩
  | .renameto => ⟨.load, some writeFirstKey, some rollbackFirstKey, 4, false⟩
  | .renamenxto => ⟨.load, some writeFirstKey, some rollbackFirstKey, 4, false⟩
  | .copyfrom => ⟨.readKey execCopyFrom, some readFirstKey, none, 2, true⟩
  | .copyto => ⟨.load, some writeFirstKey, some rollbackFirstKey, 5, false⟩
  | .getver => ⟨.readKey execGetVersion, some readAllKeys, none, 2, true⟩
  | .command => ⟨.special, none, none, 0, false⟩
  | .auth => ⟨.special, none, none, 2, false⟩
  | .info => ⟨.special, none, none, -1, false⟩
  | .slaveof => ⟨.special, none, none, 3, false⟩
  | .subscribe => ⟨.special, none, none, -2, false⟩
  | .publish => ⟨.special, none, none, 3, false⟩
  | .flushall => ⟨.special, none, none, -1, false⟩
  | .flushdb => ⟨.special, none, none, -1, false⟩
  | .save => ⟨.special, none, none, -1, false⟩
  | .bgsave => ⟨.special, none, none, 1, false⟩
  | .select => ⟨.special, none, none, 2, false⟩
  | .replconf => ⟨.special, none, none, -1, false⟩
  | .multi => ⟨.special, none, none, 1, false⟩
  | .discard => ⟨.special, none, none, 1, false⟩
  | .exec => ⟨.special, none, none, 1, false⟩
  | .watch => ⟨.special, none, none, 1, false⟩

def Executor.run (execWithLock : Line → DbProg F Reply) : Executor F → List Bytes → DbProg F Reply
  | .readKey body, key :: more => lookAt (str key) (body (key :: more))
  | .readKey _, [] => .stop .panic
  | .changeKey body, key :: more => onKey (str key) (body (key :: more))
  | .changeKey _, [] => .stop .panic
  | .readKeys body, args => lookup (body args)
  | .changeKeys body, args => body args
  | .load, args => loadDump execWithLock args
  | .special, _ => .stop .panic

def validateArity (arity : Int) (line : Line) : Bool :=
  if 0 ≤ arity then (line.length : Int) = arity else -arity ≤ line.length

/-- `DB.execWithLock`.  Every line a line executes is a part of its bytes, and `depth` bounds how
deep they nest. -/
def execWithLock [Float64 F] : Nat → Line → DbProg F Reply
  | _, [] => .stop .panic
  | 0, _ :: _ => .stop .blocked
  | depth + 1, name :: args =>
    match Name.ofText (toLower (str name)) with
    | none => return .unknownCommand (toLower (str name))
    | some found =>
      if validateArity (command (F := F) found).arity (name :: args) then
        (command found).executor.run (execWithLock depth) args
      else return .argNumErr (toLower (str name))

def lineSize (line : Line) : Nat :=
  (line.map fun arg => (str arg).length).sum

/-- A command line executed, with more than enough depth. -/
def exec [Float64 F] (line : Line) : DbProg F Reply :=
  execWithLock (lineSize line + 1) line

end Godis.Database
