/-!
# The region names of the events

One list for each of the macros that the constructor of the estimator uses, in the order and with the
spelling that the source has.
-/

namespace ScoreP.Score

def mpiSend : List String := [
  "MPI_Bsend", "MPI_Rsend", "MPI_Ssend", "MPI_Sendrecv", "MPI_Sendrecv_replace", "MPI_Send"]

def mpiIsend : List String := [
  "MPI_Ibsend", "MPI_Irsend", "MPI_Issend", "MPI_Isend", "MPI_Bsend_init", "MPI_Rsend_init",
  "MPI_Send_init", "MPI_Ssend_init"]

def mpiIsendcomplete : List String := [
  "MPI_Ibsend", "MPI_Irsend", "MPI_Issend", "MPI_Isend", "MPI_Bsend_init", "MPI_Rsend_init",
  "MPI_Send_init", "MPI_Ssend_init"]

def mpiIrecvrequest : List String := ["MPI_Irecv", "MPI_Irecv_init"]

def mpiRecv : List String := ["MPI_Sendrecv", "MPI_Sendrecv_replace", "MPI_Recv"]

def mpiIrecv : List String := ["MPI_Irecv", "MPI_Irecv_init"]

def mpiCollective : List String := [
  "MPI_Allgather", "MPI_Allgatherv", "MPI_Allreduce", "MPI_Alltoall", "MPI_Alltoallv", "MPI_Alltoallw",
  "MPI_Barrier", "MPI_Bcast", "MPI_Exscan", "MPI_Gather", "MPI_Gatherv", "MPI_Reduce",
  "MPI_Reduce_scatter", "MPI_Reduce_scatter_block", "MPI_Scan", "MPI_Scatter", "MPI_Scatterv", "MPI_Init",
  "MPI_Init_thread", "MPI_Comm_create", "MPI_Comm_dup", "MPI_Comm_dup_with_info", "MPI_Comm_split",
  "MPI_Comm_split_type", "MPI_Comm_create_group", "MPI_Comm_create_from_group", "MPI_Intercomm_create",
  "MPI_Intercomm_create_from_groups", "MPI_Intercomm_merge", "MPI_Comm_accept", "MPI_Comm_connect",
  "MPI_Comm_spawn", "MPI_Comm_spawn_multiple", "MPI_Comm_join", "MPI_Cart_create", "MPI_Cart_sub",
  "MPI_Graph_create", "MPI_Dist_graph_create", "MPI_Dist_graph_create_adjacent", "MPI_Finalize",
  "MPI_Comm_free", "MPI_Comm_disconnect"]

def mpiNonBlockingCollective : List String := [
  "MPI_Iallgather", "MPI_Iallgatherv", "MPI_Iallreduce", "MPI_Ialltoall", "MPI_Ialltoallv",
  "MPI_Ialltoallw", "MPI_Ibarrier", "MPI_Ibcast", "MPI_Iexscan", "MPI_Igather", "MPI_Igatherv",
  "MPI_Ireduce", "MPI_Ireduce_scatter", "MPI_Ireduce_scatter_block", "MPI_Iscan", "MPI_Iscatter",
  "MPI_Iscatterv", "MPI_Comm_idup", "MPI_Comm_idup_with_info"]

def commCreate : List String := [
  "MPI_Init", "MPI_Init_thread", "MPI_Comm_create", "MPI_Comm_dup", "MPI_Comm_dup_with_info",
  "MPI_Comm_idup", "MPI_Comm_idup_with_info", "MPI_Comm_split", "MPI_Comm_split_type",
  "MPI_Comm_create_group", "MPI_Comm_create_from_group", "MPI_Intercomm_create",
  "MPI_Intercomm_create_from_groups", "MPI_Intercomm_merge", "MPI_Comm_accept", "MPI_Comm_connect",
  "MPI_Comm_spawn", "MPI_Comm_spawn_multiple", "MPI_Comm_join", "MPI_Cart_create", "MPI_Cart_sub",
  "MPI_Graph_create", "MPI_Dist_graph_create", "MPI_Dist_graph_create_adjacent"]

def commDestroy : List String := ["MPI_Finalize", "MPI_Comm_free", "MPI_Comm_disconnect"]

def rmaOp : List String := [
  "shmem_char_p", "shmem_short_p", "shmem_int_p", "shmem_long_p", "shmem_float_p", "shmem_double_p",
  "shmem_longlong_p", "shmem_longdouble_p", "shmem_char_put", "shmem_short_put", "shmem_int_put",
  "shmem_long_put", "shmem_float_put", "shmem_double_put", "shmem_longlong_put", "shmem_longdouble_put",
  "shmem_put16", "shmem_put32", "shmem_put64", "shmem_put128", "shmem_putmem", "shmem_short_iput",
  "shmem_int_iput", "shmem_float_iput", "shmem_long_iput", "shmem_double_iput", "shmem_longlong_iput",
  "shmem_longdouble_iput", "shmem_iput16", "shmem_iput32", "shmem_iput64", "shmem_iput128",
  "shmem_char_g", "shmem_short_g", "shmem_int_g", "shmem_long_g", "shmem_float_g", "shmem_double_g",
  "shmem_longlong_g", "shmem_longdouble_g", "shmem_char_get", "shmem_short_get", "shmem_int_get",
  "shmem_long_get", "shmem_float_get", "shmem_double_get", "shmem_longlong_get", "shmem_longdouble_get",
  "shmem_get16", "shmem_get32", "shmem_get64", "shmem_get128", "shmem_getmem", "shmem_short_iget",
  "shmem_int_iget", "shmem_float_iget", "shmem_long_iget", "shmem_double_iget", "shmem_longlong_iget",
  "shmem_longdouble_iget", "shmem_iget16", "shmem_iget32", "shmem_iget64", "shmem_iget128", "hipMemcpy",
  "hipMemcpyWithStream", "hipMemcpyHtoD", "hipMemcpyFromSymbol", "hipMemcpyDtoH", "hipMemcpyDtoD",
  "hipMemcpyAsync", "hipMemcpyHtoDAsync", "hipMemcpyFromSymbolAsync", "hipMemcpyDtoHAsync",
  "hipMemcpyDtoDAsync"]

def rmaOpCompleteRemote : List String := ["shmem_barrier_all"]

def rmaAtomic : List String := [
  "shmem_short_swap", "shmem_int_swap", "shmem_long_swap", "shmem_swap", "shmem_longlong_swap",
  "shmem_float_swap", "shmem_double_swap", "shmem_short_cswap", "shmem_int_cswap", "shmem_long_cswap",
  "shmem_longlong_cswap", "shmem_short_fadd", "shmem_int_fadd", "shmem_long_fadd", "shmem_longlong_fadd",
  "shmem_short_finc", "shmem_int_finc", "shmem_long_finc", "shmem_longlong_finc", "shmem_short_add",
  "shmem_int_add", "shmem_long_add", "shmem_longlong_add", "shmem_short_inc", "shmem_int_inc",
  "shmem_long_inc", "shmem_longlong_inc"]

def rmaCollective : List String := [
  "shmem_barrier_all", "shmem_barrier", "shmem_broadcast32", "shmem_broadcast64", "shmem_collect32",
  "shmem_collect64", "shmem_fcollect32", "shmem_fcollect64", "shmem_short_and_to_all",
  "shmem_int_and_to_all", "shmem_long_and_to_all", "shmem_longlong_and_to_all", "shmem_short_or_to_all",
  "shmem_int_or_to_all", "shmem_long_or_to_all", "shmem_longlong_or_to_all", "shmem_short_xor_to_all",
  "shmem_int_xor_to_all", "shmem_long_xor_to_all", "shmem_longlong_xor_to_all", "shmem_short_max_to_all",
  "shmem_int_max_to_all", "shmem_long_max_to_all", "shmem_float_max_to_all", "shmem_double_max_to_all",
  "shmem_longlong_max_to_all", "shmem_longdouble_max_to_all", "shmem_short_min_to_all",
  "shmem_int_min_to_all", "shmem_long_min_to_all", "shmem_float_min_to_all", "shmem_double_min_to_all",
  "shmem_longlong_min_to_all", "shmem_longdouble_min_to_all", "shmem_short_sum_to_all",
  "shmem_int_sum_to_all", "shmem_long_sum_to_all", "shmem_float_sum_to_all", "shmem_double_sum_to_all",
  "shmem_longlong_sum_to_all", "shmem_longdouble_sum_to_all", "shmem_complexf_sum_to_all",
  "shmem_complexd_sum_to_all", "shmem_short_prod_to_all", "shmem_int_prod_to_all",
  "shmem_long_prod_to_all", "shmem_float_prod_to_all", "shmem_double_prod_to_all",
  "shmem_longlong_prod_to_all", "shmem_longdouble_prod_to_all", "shmem_complexf_prod_to_all",
  "shmem_complexd_prod_to_all"]

def rmaWaitChange : List String := [
  "shmem_short_wait", "shmem_int_wait", "shmem_long_wait", "shmem_longlong_wait", "shmem_wait",
  "shmem_short_wait_until", "shmem_int_wait_until", "shmem_long_wait_until", "shmem_longlong_wait_until",
  "shmem_wait_until"]

def rmaLock : List String := ["shmem_set_lock", "shmem_test_lock"]

def rmaReleaseLock : List String := ["shmem_clear_lock"]

def threadFork : List String := ["!$omp parallel"]

def threadJoin : List String := ["!$omp parallel"]

def threadTeam : List String := ["!$omp parallel"]

def threadTaskCreate : List String := ["!$omp task "]

def threadTaskSwitch : List String := ["!$omp task"]

def threadAcquirelock : List String := [
  "omp_set_lock", "omp_set_nest_lock", "pthread_mutex_unlock", "pthread_cond_wait",
  "pthread_cond_timedwait"]

def threadReleaselock : List String := [
  "omp_unset_lock", "omp_unset_nest_lock", "pthread_mutex_unlock", "pthread_cond_wait",
  "pthread_cond_timedwait"]

def threadCreateWaitCreate : List String := ["pthread_create"]

def threadCreateWaitBegin : List String := ["pthread_create"]

def threadCreateWaitWait : List String := ["pthread_join"]

def threadCreateWaitEnd : List String := ["pthread_create"]

def ioCreate : List String := [
  "MPI_File_open", "creat", "creat64", "open", "open64", "openat", "fdopen", "fopen", "fopen64", "freopen"]

def ioDelete : List String := ["MPI_File_close", "MPI_File_delete", "unlink", "unlinkat"]

def ioSeek : List String := [
  "MPI_File_seek", "MPI_File_seek_shared", "lseek", "lseek64", "fseek", "fseeko", "fseeko64", "fsetpos",
  "rewind"]

def ioBlockingTransfer : List String := [
  "MPI_File_read", "MPI_File_read_all", "MPI_File_read_at", "MPI_File_read_at_all",
  "MPI_File_read_ordered", "MPI_File_read_shared", "MPI_File_write", "MPI_File_write_all",
  "MPI_File_write_at", "MPI_File_write_at_all", "MPI_File_write_ordered", "MPI_File_write_shared",
  "fdatasync", "fsync", "pread", "pread64", "pwrite", "pwrite64", "read", "syncfs", "write", "preadv",
  "pwritev", "readv", "writev", "lio_listio", "fflush", "fgetc", "fgets", "fputc", "fprintf", "fputs",
  "fread", "fscanf", "fwrite", "getc", "getchar", "gets", "printf", "putchar", "puts", "scanf",
  "vfprintf", "vfscanf", "vscanf", "vprintf"]

def ioNonblockingTransferBegin : List String := [
  "MPI_File_iread", "MPI_File_iread_all", "MPI_File_iread_at", "MPI_File_iread_at_all",
  "MPI_File_iread_shared", "MPI_File_iwrite", "MPI_File_iwrite_all", "MPI_File_iwrite_at",
  "MPI_File_iwrite_at_all", "MPI_File_iwrite_shared", "MPI_File_read_all_begin",
  "MPI_File_read_at_all_begin", "MPI_File_read_ordered_begin", "MPI_File_write_all_begin",
  "MPI_File_write_at_all_begin", "MPI_File_write_ordered_begin", "sync", "aio_read", "aio_write"]

def ioNonblockingTransferEnd : List String := [
  "MPI_File_read_all_end", "MPI_File_read_at_all_end", "MPI_File_read_ordered_end",
  "MPI_File_write_all_end", "MPI_File_write_at_all_end", "MPI_File_write_ordered_end", "sync",
  "aio_error", "aio_return"]

def ioClose : List String := ["close", "closedir", "fclose"]

def ioDuplicate : List String := ["dup", "dup2", "dup3", "fcntl"]

def ioAcquireLock : List String := ["lockf", "flockfile", "ftrylockfile"]

def ioOperationCancelled : List String := ["aio_cancel"]

def ioReleaseLock : List String := ["funlockfile"]

def measurementBufferFlush : List String := ["TRACE BUFFER FLUSH"]

def measurementOnOff : List String := ["MEASUREMENT OFF"]

end ScoreP.Score
