import MemStream.Db.Impl.Db

namespace MemStream

def LogError.toText : LogError → String
  | .entryTooLarge => "entry exceeds segment capacity"
  | .segmentLimitReached => "max segment count reached"
  | .entryNotFound => "entry not found"
  | .allocationFailed => "failed to allocate memory for segment"
  | .maxSegmentsReached => "maximum segments reached"
  | .writeLockUnavailable => "write lock is currently held by another operation"

def GroupError.toText : GroupError → String
  | .groupNotFound name => "group '" ++ name ++ "' not found"
  | .groupAlreadyExists name => "group '" ++ name ++ "' already exists"
  | .logError e => "log error: " ++ e.toText

def ListError.toText : ListError → String
  | .entryTooLarge => "entry exceeds segment capacity"
  | .allocFailed => "failed to grow the list"
  | .keyNotFound => "key not found"
  | .outOfRange => "given range is invalidß"

def DBError.toText : DBError → String
  | .logCreateGroupError e => "failed to create group: " ++ e.toText
  | .logDropGroupError e => "failed to drop group: " ++ e.toText
  | .logAppendError e => "failed to append to log: " ++ e.toText
  | .logAppendRangeError e => "failed to append range to log: " ++ e.toText
  | .logReadError e => "failed to read from log: " ++ e.toText
  | .logReadRangeError e => "failed to read range from log: " ++ e.toText
  | .logRemoveError e => "failed to remove from log: " ++ e.toText
  | .logGroupStatsError e => "failed to read group stats: " ++ e.toText
  | .kvSetError e => "failed to set key: " ++ e
  | .kvGetError e => "failed to get key: " ++ e
  | .kvDelError e => "failed to del key: " ++ e
  | .kvKeysError e => "failed to return keys: " ++ e
  | .kvFlushError e => "failed to flush: " ++ e
  | .listPushError e => "failed to push: " ++ e.toText
  | .listPushRangeError e => "failed to push range: " ++ e.toText
  | .listPopError e => "failed to pop: " ++ e.toText
  | .listPopRangeError e => "failed to pop range: " ++ e.toText
  | .listPopCountError e => "failed to pop count: " ++ e.toText
  | .listLenError e => "failed to get len: " ++ e.toText
  | .listFlushError e => "failed to flush list: " ++ e.toText

end MemStream
